/-
# Runs of a watch

What a single step keeps is kept by any number of steps (`Steps.keeps`), and an endless run is a
sequence of states of which each follows from the one before.  A run is *draining* when nobody
in it is starved: the task runs when it can, the consumer receives what is queued, and the clock
reaches the timer that the task waits for.

The main statement is `Run.Draining.exists_isClosed`: in a draining run without a late cancel
the queue of a responsive task reads closed at some point, provided that the task and the
consumer cannot go on for ever.  The proof finds the next step that is more than the passing of
time (`Run.Draining.exists_progress`) and follows these steps down a well-founded relation.
-/

import DeployWatch.Watch.Net
import Mathlib.Data.List.Basic
import Mathlib.Data.Nat.Find

namespace DeployWatch.Watch.Net

variable {σ ε : Type} {t : Task σ ε} {a b n m : Net σ ε}

/-! ### What steps keep, runs keep -/

/-- A property that every step keeps is kept by any number of steps. -/
theorem Steps.keeps {P : Net σ ε → Prop} (run : Steps t a b)
    (step : ∀ {n m}, Step t n m → P n → P m) (h : P a) : P b := by
  induction run with
  | refl => exact h
  | tail _ last ih => exact step last ih

theorem Steps.trans {c : Net σ ε} (first : Steps t a b) (second : Steps t b c) : Steps t a c := by
  induction second with
  | refl => exact first
  | tail _ last ih => exact .tail ih last

theorem Step.steps (h : Step t a b) : Steps t a b := .tail (.refl a) h

/-- What receiving needs and what it gives. -/
theorem receive?_eq_some {e : ε} (h : n.receive? = some (e, m)) :
    ∃ rest, n.queue = e :: rest ∧
      m = { n with queue := rest, received := n.received ++ [e] } := by
  unfold receive? at h
  split at h
  · cases h
  · next first rest hq =>
    simp only [Option.some.injEq, Prod.mk.injEq] at h
    obtain ⟨rfl, rfl⟩ := h
    exact ⟨rest, hq, rfl⟩

theorem receive?_of_queue {e : ε} {rest : List ε} (h : n.queue = e :: rest) :
    n.receive? = some (e, { n with queue := rest, received := n.received ++ [e] }) := by
  simp [receive?, h]

/-- A step is one of the task or leaves it as it is. -/
theorem Step.task_eq_or_take (h : Step t a b) :
    b.task = a.task ∨ ∃ move ∈ a.moves t, b = a.take move := by
  cases h with
  | task move hm => exact .inr ⟨move, hm, rfl⟩
  | drop | cancel | elapse => exact .inl rfl
  | receive _ e _ h =>
    obtain ⟨rest, hq, rfl⟩ := receive?_eq_some h
    exact .inl rfl

/-- A consumer that has left does not come back. -/
theorem Step.attached (h : Step t a b) (here : b.gone = false) : a.gone = false := by
  cases h with
  | task | cancel | elapse => exact here
  | receive _ _ attached _ => exact attached
  | drop => cases here

/-- A watch that has been cancelled stays cancelled. -/
theorem Step.cancelled (h : Step t a b) (off : a.cancelled = true) : b.cancelled = true := by
  cases h with
  | task | drop | elapse => exact off
  | cancel => rfl
  | receive _ e here h =>
    obtain ⟨rest, hq, rfl⟩ := receive?_eq_some h
    exact off

theorem Step.capacity_eq (h : Step t a b) : b.capacity = a.capacity := by
  cases h with
  | task | drop | cancel | elapse => rfl
  | receive _ e here h =>
    obtain ⟨rest, hq, rfl⟩ := receive?_eq_some h
    rfl

/-- The clock never goes back. -/
theorem Step.now_le (h : Step t a b) : a.now ≤ b.now := by
  cases h with
  | task | drop | cancel => exact le_rfl
  | elapse now _ later _ => exact later
  | receive _ e here h =>
    obtain ⟨rest, hq, rfl⟩ := receive?_eq_some h
    exact le_rfl

/-- What has been received stays received. -/
theorem Step.received_prefix (h : Step t a b) : a.received <+: b.received := by
  cases h with
  | task | drop | cancel | elapse => exact List.prefix_refl _
  | receive _ e here h =>
    obtain ⟨rest, hq, rfl⟩ := receive?_eq_some h
    exact List.prefix_append _ _

/-- A consumer that has left receives nothing more. -/
theorem Step.received_eq_of_gone (h : Step t a b) (gone : b.gone = true) :
    b.received = a.received := by
  cases h with
  | task | drop | cancel | elapse => rfl
  | receive _ e here h =>
    obtain ⟨rest, hq, rfl⟩ := receive?_eq_some h
    rw [show a.gone = true from gone] at here
    cases here

/-- The clock stands still while the task can take a step. -/
theorem Step.now_eq (h : Step t a b) (able : a.moves t ≠ []) : b.now = a.now := by
  cases h with
  | task | drop | cancel => rfl
  | elapse now idle => exact absurd idle able
  | receive _ e here h =>
    obtain ⟨rest, hq, rfl⟩ := receive?_eq_some h
    rfl

/-- The clock does not pass the timer that the task waits for. -/
theorem Step.now_le_timer (h : Step t a b) {due : Nat} (timer : t.timer? a.task = some due)
    (early : a.now ≤ due) : b.now ≤ due := by
  cases h with
  | task | drop | cancel => exact early
  | elapse now _ _ before => exact before due timer
  | receive _ e here h =>
    obtain ⟨rest, hq, rfl⟩ := receive?_eq_some h
    exact early

/-- A consumer that has left stays away. -/
theorem Step.gone (h : Step t a b) (gone : a.gone = true) : b.gone = true := by
  cases there : b.gone with
  | true => rfl
  | false => rw [h.attached there] at gone; cases gone

theorem Steps.attached (run : Steps t a b) (here : b.gone = false) : a.gone = false := by
  induction run with
  | refl => exact here
  | tail _ last ih => exact ih (last.attached here)

theorem Steps.cancelled (run : Steps t a b) (off : a.cancelled = true) : b.cancelled = true :=
  run.keeps (fun step => step.cancelled) off

/-- A watch that is not cancelled now never was. -/
theorem Steps.uncancelled (run : Steps t a b) (on : b.cancelled = false) :
    a.cancelled = false := by
  cases ha : a.cancelled with
  | false => rfl
  | true => rw [run.cancelled ha] at on; cases on

/-- Letting the task run is taking steps. -/
theorem steps_settle (t : Task σ ε) (fuel : Nat) (n : Net σ ε) : Steps t n (n.settle t fuel) := by
  induction fuel generalizing n with
  | zero => exact .refl n
  | succ fuel ih =>
    unfold settle step?
    cases hm : n.moves t with
    | nil => exact .refl n
    | cons move more =>
      exact (Step.task n move (hm ▸ List.mem_cons_self)).steps.trans (ih _)

/-- A watch whose task has nothing to do can wait and let the task run then. -/
theorem Steps.settle_at (run : Steps t a b) (now fuel : Nat) (idle : (b.moves t).isEmpty = true)
    (later : b.now ≤ now) (timer : ∀ due, t.timer? b.task = some due → now ≤ due) :
    Steps t a ((b.advance now).settle t fuel) :=
  (run.tail (.elapse b now (List.isEmpty_iff.mp idle) later timer)).trans (steps_settle t fuel _)

/-- What every move of a task keeps is kept by any number of steps. -/
theorem Steps.keeps_task {P : σ → Prop} (run : Steps t a b)
    (move : ∀ v s move, move ∈ t.moves v s → P s → P move.state) (h : P a.task) : P b.task := by
  refine run.keeps (P := fun m => P m.task) (fun step h => ?_) h
  rcases step.task_eq_or_take with same | ⟨taken, hm, rfl⟩
  · rw [same]; exact h
  · exact move _ _ _ hm h

theorem start_capacity_pos (task : σ) (capacity : Nat) (cancelled : Bool) :
    0 < (Net.start task capacity cancelled : Net σ ε).capacity :=
  lt_of_lt_of_le Nat.one_pos (Nat.le_max_right capacity 1)

/-! ### Progress and the passing of time -/

/-- The task takes one of its steps. -/
def Works (t : Task σ ε) (a b : Net σ ε) : Prop := ∃ move ∈ a.moves t, b = a.take move

/-- The consumer receives an event. -/
def Receives (a b : Net σ ε) : Prop := ∃ e, a.receive? = some (e, b)

/-- The task or the consumer gets on with its business. -/
def Progress (t : Task σ ε) (a b : Net σ ε) : Prop := Works t a b ∨ Receives a b

/-- The same watch, perhaps at a later time. -/
def Later (a b : Net σ ε) : Prop := ∃ now, a.now ≤ now ∧ b = a.advance now

theorem Later.refl (n : Net σ ε) : Later n n := ⟨n.now, le_rfl, rfl⟩

theorem Later.trans {c : Net σ ε} (h : Later a b) (h' : Later b c) : Later a c := by
  obtain ⟨now, le, rfl⟩ := h
  obtain ⟨now', le', rfl⟩ := h'
  exact ⟨now', le_trans le le', rfl⟩

/-- Unless the consumer drops its end or a cancel comes late, a step is progress or the passing
of time. -/
theorem Step.progress_or_later (h : Step t a b) (here : b.gone = false)
    (steady : b.cancelled = a.cancelled) : Progress t a b ∨ Later a b := by
  cases h with
  | task move hm => exact .inl (.inl ⟨move, hm, rfl⟩)
  | receive _ e _ h => exact .inl (.inr ⟨e, h⟩)
  | drop => cases here
  | cancel =>
    refine .inr ⟨a.now, le_rfl, ?_⟩
    have off : a.cancelled = true := steady.symm
    obtain ⟨_, _, _, _, _, _, _⟩ := a
    cases off
    rfl
  | elapse now _ later _ => exact .inr ⟨now, later, rfl⟩

/-- `Ahead t m n`: from `n`, perhaps after a while, one step of progress leads to `m`. -/
def Ahead (t : Task σ ε) (m n : Net σ ε) : Prop := ∃ k, Later n k ∧ Progress t k m

/-- A measure that every step of progress lowers and that time does not touch bounds the
progress. -/
theorem acc_of_measure {P : Net σ ε → Prop} (f : Net σ ε → Nat)
    (down : ∀ n m, P n → Ahead t m n → P m ∧ f m < f n) (h : P n) : Acc (Ahead t) n := by
  induction hf : f n using Nat.strong_induction_on generalizing n with
  | _ k ih =>
    refine Acc.intro n fun m ahead => ?_
    obtain ⟨hm, lt⟩ := down n m h ahead
    exact ih (f m) (hf ▸ lt) hm rfl

/-! ### Endless runs -/

/-- A task that does not stop short: with a consumer there and an empty queue it can take a step
now, or as soon as the timer that it waits for has expired, until it has ended; then it never
does. -/
structure Responsive (t : Task σ ε) : Prop where
  /-- An unended task can step from some time on, and that time is past or its timer. -/
  steps : ∀ n : Net σ ε, n.gone = false → n.queue = [] → 0 < n.capacity →
    t.ended n.task = false →
      ∃ due, (due ≤ n.now ∨ t.timer? n.task = some due) ∧
        ∀ m, Later n m → due ≤ m.now → m.moves t ≠ []
  /-- A task that has ended takes no step. -/
  rests : ∀ n : Net σ ε, t.ended n.task = true → n.moves t = []

/-- An endless run: in every state something happens or nothing does. -/
structure Run (t : Task σ ε) (n : Net σ ε) where
  state : Nat → Net σ ε
  first : state 0 = n
  next : ∀ i, state (i + 1) = state i ∨ Step t (state i) (state (i + 1))

namespace Run

variable (run : Run t n)

/-- A run in which the consumer stays and nobody is starved for ever. -/
structure Draining : Prop where
  /-- The consumer does not drop its end. -/
  attached : ∀ i, (run.state i).gone = false
  /-- A task that can step again and again does so at some point. -/
  works : ∀ i, (∀ j ≥ i, (run.state j).moves t ≠ []) →
    ∃ j ≥ i, Works t (run.state j) (run.state (j + 1))
  /-- The consumer does not leave a queue unread for ever. -/
  receives : ∀ i, (∀ j ≥ i, (run.state j).queue ≠ []) →
    ∃ j ≥ i, Receives (run.state j) (run.state (j + 1))
  /-- A timer that the task keeps waiting for expires. -/
  elapses : ∀ i due, (∀ j ≥ i, t.timer? (run.state j).task = some due) →
    ∃ j ≥ i, due ≤ (run.state j).now

/-- Nobody cancels in the course of the run. -/
def Steady : Prop := ∀ i, (run.state i).cancelled = n.cancelled

/-- A run in which the consumer leaves at some point and neither the task nor the clock is starved
for ever. -/
structure Deserted : Prop where
  /-- The consumer drops its end. -/
  left : ∃ i, (run.state i).gone = true
  /-- A task that can step again and again does so at some point. -/
  works : ∀ i, (∀ j ≥ i, (run.state j).moves t ≠ []) →
    ∃ j ≥ i, Works t (run.state j) (run.state (j + 1))
  /-- A timer that the task keeps waiting for expires. -/
  elapses : ∀ i due, (∀ j ≥ i, t.timer? (run.state j).task = some due) →
    ∃ j ≥ i, due ≤ (run.state j).now

variable {run}

theorem steps (i : Nat) : Steps t n (run.state i) := by
  induction i with
  | zero => rw [run.first]; exact .refl n
  | succ i ih =>
    rcases run.next i with same | step
    · rw [same]; exact ih
    · exact .tail ih step

theorem capacity_eq (i : Nat) : (run.state i).capacity = n.capacity :=
  (run.steps i).keeps (P := fun m => m.capacity = n.capacity)
    (fun step h => step.capacity_eq.trans h) rfl

/-- What every step keeps holds from some state of a run on. -/
theorem keeps_from {P : Net σ ε → Prop} (step : ∀ {n m}, Step t n m → P n → P m) {i j : Nat}
    (le : i ≤ j) (h : P (run.state i)) : P (run.state j) := by
  induction j, le using Nat.le_induction with
  | base => exact h
  | succ j le ih =>
    rcases run.next j with same | next
    · rw [same]; exact ih
    · exact step next ih

/-- A consumer that has left stays away. -/
theorem gone_from {i j : Nat} (le : i ≤ j) (h : (run.state i).gone = true) :
    (run.state j).gone = true :=
  keeps_from (P := fun n => n.gone = true) (fun step => step.gone) le h

/-- What has been received in a run stays received. -/
theorem received_prefix {i j : Nat} (le : i ≤ j) :
    (run.state i).received <+: (run.state j).received :=
  keeps_from (P := fun n => (run.state i).received <+: n.received)
    (fun step h => h.trans step.received_prefix) le (List.prefix_refl _)

/-- The clock of a run never goes back. -/
theorem now_le {i j : Nat} (le : i ≤ j) : (run.state i).now ≤ (run.state j).now :=
  keeps_from (P := fun n => (run.state i).now ≤ n.now) (fun step h => le_trans h step.now_le) le
    le_rfl

/-- Unless the task takes a step it stays as it is. -/
theorem task_eq_of_not_works {i j : Nat} (le : i ≤ j)
    (stuck : ∀ k, i ≤ k → k < j → ¬ Works t (run.state k) (run.state (k + 1))) :
    (run.state j).task = (run.state i).task := by
  induction j, le using Nat.le_induction with
  | base => rfl
  | succ j le ih =>
    rw [← ih fun k from_i before => stuck k from_i (by omega)]
    rcases run.next j with same | step
    · rw [same]
    · rcases step.task_eq_or_take with same | works
      · exact same
      · exact absurd works (stuck j le (by omega))

/-- Up to the first step of the task from some state on it is as it was there. -/
theorem exists_first_works {i : Nat}
    (some : ∃ j ≥ i, Works t (run.state j) (run.state (j + 1))) :
    ∃ j ≥ i, (run.state j).task = (run.state i).task ∧
      Works t (run.state j) (run.state (j + 1)) := by
  classical
  obtain ⟨le, works⟩ := Nat.find_spec some
  refine ⟨Nat.find some, le, ?_, works⟩
  exact task_eq_of_not_works le fun k from_i before made => Nat.find_min some before ⟨from_i, made⟩

/-- Once its consumer has left, a task that can step when its timer has expired does so, in a run
that does not starve it. -/
theorem Deserted.exists_works (fair : run.Deserted) {i : Nat} (gone : (run.state i).gone = true)
    (able : ∀ m : Net σ ε, m.task = (run.state i).task → m.gone = true →
      (∀ due, t.timer? m.task = some due → due ≤ m.now) → m.moves t ≠ []) :
    ∃ j ≥ i, (run.state j).task = (run.state i).task ∧
      Works t (run.state j) (run.state (j + 1)) := by
  apply exists_first_works
  by_contra none
  have stuck : ∀ j ≥ i, ¬ Works t (run.state j) (run.state (j + 1)) := by
    intro j le works
    exact none ⟨j, le, works⟩
  have task_eq : ∀ j ≥ i, (run.state j).task = (run.state i).task := by
    intro j le
    exact task_eq_of_not_works le fun k from_i _ => stuck k from_i
  -- from some state on the timer has expired, if there is one
  obtain ⟨k, le, expired⟩ : ∃ k ≥ i, ∀ due, t.timer? (run.state i).task = some due →
      due ≤ (run.state k).now := by
    cases timer : t.timer? (run.state i).task with
    | none => exact ⟨i, le_rfl, by rintro due ⟨⟩⟩
    | some due =>
      obtain ⟨k, le, past⟩ := fair.elapses i due fun j le => by rw [task_eq j le, timer]
      refine ⟨k, le, ?_⟩
      intro due' timer'
      exact Option.some.inj timer' ▸ past
  obtain ⟨j, later, works⟩ := fair.works k fun j later => by
    have le' : i ≤ j := le_trans le later
    apply able _ (task_eq j le') (gone_from le' gone)
    intro due timer
    rw [task_eq j le'] at timer
    exact le_trans (expired due timer) (now_le later)
  exact stuck j (le_trans le later) works

/-- If again and again something holds or a measure has grown, it holds at some point or the
measure grows without bound. -/
theorem exists_or_ge {P : Net σ ε → Prop} {f : Net σ ε → Nat} {i : Nat}
    (again : ∀ j ≥ i, ∃ l ≥ j, P (run.state l) ∨ f (run.state j) < f (run.state l)) (k : Nat) :
    ∃ j ≥ i, P (run.state j) ∨ k ≤ f (run.state j) := by
  induction k with
  | zero => exact ⟨i, le_rfl, .inr (Nat.zero_le _)⟩
  | succ k ih =>
    obtain ⟨j, le, holds | many⟩ := ih
    · exact ⟨j, le, .inl holds⟩
    · obtain ⟨l, later, holds | more⟩ := again j le
      · exact ⟨l, le_trans le later, .inl holds⟩
      · exact ⟨l, le_trans le later, .inr (by omega)⟩

/-- If again and again something holds or a measure has grown, and it never holds, then the measure
grows without bound. -/
theorem exists_or_forall_ge {P : Net σ ε → Prop} {f : Net σ ε → Nat}
    (again : ∀ j, ∃ l ≥ j, P (run.state l) ∨ f (run.state j) < f (run.state l)) :
    (∃ i, P (run.state i)) ∨ ∀ k, ∃ i, k ≤ f (run.state i) := by
  by_cases some : ∃ i, P (run.state i)
  · exact .inl some
  · right
    intro k
    obtain ⟨i, -, holds | many⟩ := exists_or_ge (i := 0) (fun j _ => again j) k
    · exact absurd ⟨i, holds⟩ some
    · exact ⟨i, many⟩

namespace Draining

/-- While there is no progress only time passes. -/
theorem later_of_not_progress (fair : run.Draining) (steady : run.Steady) {i j : Nat}
    (le : i ≤ j)
    (stuck : ∀ l, i ≤ l → l < j → ¬ Progress t (run.state l) (run.state (l + 1))) :
    Later (run.state i) (run.state j) := by
  induction j, le using Nat.le_induction with
  | base => exact .refl _
  | succ j le ih =>
    have before := ih fun l h lt => stuck l h (by omega)
    rcases run.next j with same | step
    · rw [same]; exact before
    · have still : (run.state (j + 1)).cancelled = (run.state j).cancelled :=
        (steady (j + 1)).trans (steady j).symm
      rcases step.progress_or_later (fair.attached (j + 1)) still with progress | later
      · exact absurd progress (stuck j le (by omega))
      · exact before.trans later

/-- As long as the queue does not read closed there will be progress. -/
theorem exists_progress_from (fair : run.Draining) (steady : run.Steady) (resp : Responsive t)
    (room : 0 < n.capacity) {i : Nat} (opened : (run.state i).isClosed t = false) :
    ∃ j ≥ i, Progress t (run.state j) (run.state (j + 1)) := by
  by_contra none
  have stuck : ∀ j ≥ i, ¬ Progress t (run.state j) (run.state (j + 1)) :=
    fun j le h => none ⟨j, le, h⟩
  have later : ∀ l ≥ i, ∀ j ≥ l, Later (run.state l) (run.state j) := fun l h j le =>
    fair.later_of_not_progress steady le fun k hk _ => stuck k (le_trans h hk)
  have queue_eq : ∀ j ≥ i, (run.state j).queue = (run.state i).queue := fun j le => by
    obtain ⟨now, -, h⟩ := later i le_rfl j le
    rw [h]; rfl
  have task_eq : ∀ j ≥ i, (run.state j).task = (run.state i).task := fun j le => by
    obtain ⟨now, -, h⟩ := later i le_rfl j le
    rw [h]; rfl
  cases hq : (run.state i).queue with
  | cons e rest =>
    obtain ⟨j, le, received⟩ := fair.receives i fun j le => by simp [queue_eq j le, hq]
    exact stuck j le (.inr received)
  | nil =>
    have alive : t.ended (run.state i).task = false := by
      simpa [isClosed, hq] using opened
    have room' : 0 < (run.state i).capacity := by rw [capacity_eq]; exact room
    obtain ⟨due, soon, can⟩ := resp.steps _ (fair.attached i) hq room' alive
    obtain ⟨k, le, expired⟩ : ∃ k ≥ i, due ≤ (run.state k).now := by
      rcases soon with past | timer
      · exact ⟨i, le_rfl, past⟩
      · exact fair.elapses i due fun j le => by rw [task_eq j le, timer]
    -- from `k` on the task can step in every state, so at some point it does
    have able : ∀ j ≥ k, (run.state j).moves t ≠ [] := fun j lt => by
      obtain ⟨now, mono, eq⟩ := later k le j lt
      refine can _ (later i le_rfl j (le_trans le lt)) (le_trans expired ?_)
      rw [eq]; exact mono
    obtain ⟨j, lt, works⟩ := fair.works k able
    exact stuck j (le_trans le lt) (.inl works)

/-- The next step of progress comes from the same watch, perhaps at a later time. -/
theorem exists_progress (fair : run.Draining) (steady : run.Steady) (resp : Responsive t)
    (room : 0 < n.capacity) {i : Nat} (opened : (run.state i).isClosed t = false) :
    ∃ j ≥ i, Ahead t (run.state (j + 1)) (run.state i) := by
  classical
  have some := fair.exists_progress_from steady resp room opened
  obtain ⟨le, progress⟩ := Nat.find_spec some
  refine ⟨Nat.find some, le, run.state (Nat.find some), ?_, progress⟩
  exact fair.later_of_not_progress steady le fun l h lt made => Nat.find_min some lt ⟨h, made⟩

/-- **A draining run closes**, if the task and the consumer cannot go on for ever. -/
theorem exists_isClosed (fair : run.Draining) (steady : run.Steady) (resp : Responsive t)
    (room : 0 < n.capacity) (bounded : Acc (Ahead t) n) :
    ∃ i, (run.state i).isClosed t = true := by
  suffices from_here : ∀ m, Acc (Ahead t) m → ∀ i, run.state i = m →
      ∃ j, (run.state j).isClosed t = true from from_here n bounded 0 run.first
  intro m acc
  induction acc with
  | intro m _ ih =>
    rintro i rfl
    cases opened : (run.state i).isClosed t with
    | true => exact ⟨i, opened⟩
    | false =>
      obtain ⟨j, -, ahead⟩ := fair.exists_progress steady resp room opened
      exact ih _ ahead (j + 1) rfl

end Draining

/-- The run from one of its states on. -/
def after (run : Run t n) (k : Nat) : Run t (run.state k) where
  state i := run.state (k + i)
  first := rfl
  next i := run.next (k + i)

/-- A watch is cancelled at most once, so from some state on the flag stays. -/
theorem exists_steady (run : Run t n) : ∃ k, (run.after k).Steady := by
  by_cases off : ∃ k, (run.state k).cancelled = true
  · obtain ⟨k, off⟩ := off
    exact ⟨k, fun i => (((run.after k).steps i).cancelled off).trans off.symm⟩
  · have on : ∀ i, (run.state i).cancelled = false := fun i => by
      simpa using fun h => off ⟨i, h⟩
    exact ⟨0, fun i => (on _).trans (on 0).symm⟩

theorem forall_ge_of_add {P : Nat → Prop} {k i : Nat} (h : ∀ j ≥ i, P (k + j)) :
    ∀ j ≥ k + i, P j := by
  intro j le
  obtain ⟨j, rfl⟩ := Nat.exists_eq_add_of_le (show k ≤ j by omega)
  exact h j (by omega)

theorem exists_ge_add {P : Nat → Prop} {k i : Nat} (h : ∃ j ≥ k + i, P j) :
    ∃ j ≥ i, P (k + j) := by
  obtain ⟨j, le, h⟩ := h
  obtain ⟨j, rfl⟩ := Nat.exists_eq_add_of_le (show k ≤ j by omega)
  exact ⟨j, by omega, h⟩

/-- What is fair stays fair. -/
theorem Draining.after (fair : run.Draining) (k : Nat) : (run.after k).Draining where
  attached i := fair.attached (k + i)
  works i h := exists_ge_add (fair.works (k + i) (forall_ge_of_add h))
  receives i h := exists_ge_add (fair.receives (k + i) (forall_ge_of_add h))
  elapses i due h := exists_ge_add (fair.elapses (k + i) due (forall_ge_of_add h))

/-- A draining run closes even if it is cancelled on the way, if from none of its states the task
and the consumer can go on for ever. -/
theorem Draining.exists_isClosed_of_forall (fair : run.Draining) (resp : Responsive t)
    (room : 0 < n.capacity) (bounded : ∀ i, Acc (Ahead t) (run.state i)) :
    ∃ i, (run.state i).isClosed t = true := by
  obtain ⟨k, steady⟩ := run.exists_steady
  have room : 0 < (run.state k).capacity := by rw [capacity_eq]; exact room
  obtain ⟨i, closed⟩ := (fair.after k).exists_isClosed steady resp room (bounded k)
  exact ⟨k + i, closed⟩

/-- Once the queue reads closed nothing but the clock and the flags change. -/
theorem frozen_of_isClosed (resp : Responsive t) {i : Nat}
    (closed : (run.state i).isClosed t = true) :
    ∀ j ≥ i, (run.state j).task = (run.state i).task ∧ (run.state j).queue = [] ∧
      (run.state j).received = (run.state i).received := by
  simp only [isClosed, Bool.and_eq_true, List.isEmpty_iff] at closed
  obtain ⟨empty, ended⟩ := closed
  intro j le
  induction j, le using Nat.le_induction with
  | base => exact ⟨rfl, empty, rfl⟩
  | succ j le ih =>
    obtain ⟨task_eq, queue_eq, received_eq⟩ := ih
    rcases run.next j with same | step
    · rw [same]; exact ⟨task_eq, queue_eq, received_eq⟩
    · generalize run.state (j + 1) = b at step
      cases step with
      | task move hm => rw [resp.rests _ (task_eq ▸ ended)] at hm; cases hm
      | receive _ e _ h =>
        obtain ⟨rest, hq, -⟩ := receive?_eq_some h
        rw [queue_eq] at hq; cases hq
      | drop => exact ⟨task_eq, rfl, received_eq⟩
      | cancel => exact ⟨task_eq, queue_eq, received_eq⟩
      | elapse now _ _ _ => exact ⟨task_eq, queue_eq, received_eq⟩

/-- A queue that reads closed stays closed. -/
theorem isClosed_of_le (resp : Responsive t) {i j : Nat} (le : i ≤ j)
    (closed : (run.state i).isClosed t = true) : (run.state j).isClosed t = true := by
  obtain ⟨task_eq, queue_eq, -⟩ := frozen_of_isClosed resp closed j le
  simp only [isClosed, Bool.and_eq_true] at closed ⊢
  exact ⟨by simp [queue_eq], by rw [task_eq]; exact closed.2⟩

end Run

/-! ### Draining runs exist -/

/-- The states that follow one another when everybody is eager. -/
def eagerly (t : Task σ ε) (n : Net σ ε) : Nat → Net σ ε
  | 0 => n
  | i + 1 => eager t (eagerly t n i)

theorem eager_of_queue {e : ε} {rest : List ε} (h : n.queue = e :: rest) :
    eager t n = { n with queue := rest, received := n.received ++ [e] } := by
  simp [eager, receive?_of_queue h]

theorem eager_of_moves (empty : n.queue = []) {move : Move σ ε} {more : List (Move σ ε)}
    (h : n.moves t = move :: more) : eager t n = n.take move := by
  simp [eager, receive?, empty, step?, h]

theorem eager_of_idle (empty : n.queue = []) (idle : n.moves t = []) : eager t n =
    match t.timer? n.task with
    | some due => if n.now ≤ due then n.advance due else n
    | none => n := by
  cases timer : t.timer? n.task with
  | some due => simp [eager, receive?, empty, step?, idle, timer]
  | none => simp [eager, receive?, empty, step?, idle, timer]

/-- An eager consumer, task or clock does something or nothing can be done. -/
theorem eager_step (here : n.gone = false) :
    eager t n = n ∨ Step t n (eager t n) := by
  cases hq : n.queue with
  | cons e rest =>
    rw [eager_of_queue hq]
    exact .inr (.receive n _ e here (receive?_of_queue hq))
  | nil =>
    cases hm : n.moves t with
    | cons move more =>
      rw [eager_of_moves hq hm]
      exact .inr (.task n move (by simp [hm]))
    | nil =>
      rw [eager_of_idle hq hm]
      split
      · next due timer =>
        split
        · next le =>
          refine .inr (.elapse n due hm le fun due' timer' => ?_)
          rw [timer, Option.some.injEq] at timer'
          exact Nat.le_of_eq timer'
        · exact .inl rfl
      · exact .inl rfl

/-- Eagerness neither drops nor cancels. -/
theorem eager_flags (t : Task σ ε) (n : Net σ ε) :
    (eager t n).gone = n.gone ∧ (eager t n).cancelled = n.cancelled := by
  cases hq : n.queue with
  | cons e rest => rw [eager_of_queue hq]; exact ⟨rfl, rfl⟩
  | nil =>
    cases hm : n.moves t with
    | cons move more => rw [eager_of_moves hq hm]; exact ⟨rfl, rfl⟩
    | nil =>
      rw [eager_of_idle hq hm]
      split
      · split <;> exact ⟨rfl, rfl⟩
      · exact ⟨rfl, rfl⟩

theorem eagerly_flags (t : Task σ ε) (n : Net σ ε) (i : Nat) :
    (eagerly t n i).gone = n.gone ∧ (eagerly t n i).cancelled = n.cancelled := by
  induction i with
  | zero => exact ⟨rfl, rfl⟩
  | succ i ih =>
    obtain ⟨gone, cancelled⟩ := eager_flags t (eagerly t n i)
    exact ⟨gone.trans ih.1, cancelled.trans ih.2⟩

/-- An eager consumer empties the queue again and again. -/
theorem exists_empty_eagerly (t : Task σ ε) (n : Net σ ε) (i : Nat) :
    ∃ j ≥ i, (eagerly t n j).queue = [] := by
  induction hq : (eagerly t n i).queue generalizing i with
  | nil => exact ⟨i, le_rfl, hq⟩
  | cons e rest ih =>
    obtain ⟨j, le, empty⟩ := ih (i + 1) (by simp [eagerly, eager_of_queue hq])
    exact ⟨j, by omega, empty⟩

/-- The run in which everybody is eager. -/
def Run.eager (t : Task σ ε) (here : n.gone = false) : Run t n where
  state := eagerly t n
  first := rfl
  next i := eager_step ((eagerly_flags t n i).1.trans here)

theorem Run.eager_steady (here : n.gone = false) : (Run.eager t here).Steady :=
  fun i => (eagerly_flags t n i).2

/-- An eager clock reaches the timer that a task keeps waiting for. -/
theorem due_le_of_eager (empty : n.queue = []) {due : Nat}
    (timer : t.timer? n.task = some due) (still : t.timer? (eager t n).task = some due)
    (patient : n.now < due → ∀ move ∈ n.moves t, t.timer? move.state ≠ some due) :
    due ≤ n.now ∨ due ≤ (eager t n).now := by
  by_cases past : due ≤ n.now
  · exact .inl past
  · cases hm : n.moves t with
    | cons move more =>
      rw [eager_of_moves empty hm] at still
      exact absurd still (patient (by omega) move (hm ▸ List.mem_cons_self))
    | nil =>
      rw [eager_of_idle empty hm, timer]
      refine .inr (le_of_eq ?_)
      simp only [show n.now ≤ due by omega, if_true]
      rfl

/-- A run in which everybody is eager is draining, if a task that waits for a timer steps before
it has expired only to wait no longer. -/
theorem Run.eager_draining (here : n.gone = false)
    (patient : ∀ (m : Net σ ε) due, t.timer? m.task = some due → m.now < due →
      ∀ move ∈ m.moves t, t.timer? move.state ≠ some due) :
    (Run.eager t here).Draining where
  attached i := (eagerly_flags t n i).1.trans here
  works i able := by
    obtain ⟨j, le, empty⟩ := exists_empty_eagerly t n i
    obtain ⟨move, more, hm⟩ := List.exists_cons_of_ne_nil (able j le)
    exact ⟨j, le, move, hm ▸ List.mem_cons_self, eager_of_moves empty hm⟩
  receives i unread := by
    obtain ⟨e, rest, hq⟩ := List.exists_cons_of_ne_nil (unread i le_rfl)
    have next : (Run.eager t here).state (i + 1) = _ := eager_of_queue hq
    exact ⟨i, le_rfl, e, next ▸ receive?_of_queue hq⟩
  elapses i due waits := by
    obtain ⟨j, le, empty⟩ := exists_empty_eagerly t n i
    rcases due_le_of_eager empty (waits j le) (waits (j + 1) (by omega))
      (patient (eagerly t n j) due (waits j le)) with past | past
    · exact ⟨j, le, past⟩
    · exact ⟨j + 1, by omega, past⟩

/-! ### Deserted runs exist -/

section Deserted

variable (quiet : ∀ m : Net σ ε, m.gone = true → ∀ move ∈ m.moves t, move.event = none)

include quiet in
/-- A task that queues nothing for a consumer that has left keeps the queue empty. -/
theorem eagerly_empty (gone : n.gone = true) (empty : n.queue = []) (i : Nat) :
    (eagerly t n i).queue = [] := by
  induction i with
  | zero => exact empty
  | succ i ih =>
    rw [eagerly]
    cases hm : (eagerly t n i).moves t with
    | cons move more =>
      have gone : (eagerly t n i).gone = true := (eagerly_flags t n i).1.trans gone
      rw [eager_of_moves ih hm]
      simp [take, ih, quiet _ gone move (hm ▸ List.mem_cons_self)]
    | nil =>
      rw [eager_of_idle ih hm]
      split
      · split <;> exact ih
      · exact ih

/-- Without a consumer an eager task or clock does something or nothing can be done. -/
theorem eager_step_of_empty (empty : n.queue = []) : eager t n = n ∨ Step t n (eager t n) := by
  cases hm : n.moves t with
  | cons move more =>
    rw [eager_of_moves empty hm]
    exact .inr (.task n move (by simp [hm]))
  | nil =>
    rw [eager_of_idle empty hm]
    split
    · next due timer =>
      split
      · refine .inr (.elapse n due hm (by assumption) ?_)
        intro due' timer'
        rw [timer, Option.some.injEq] at timer'
        exact Nat.le_of_eq timer'
      · exact .inl rfl
    · exact .inl rfl

/-- The run in which the consumer leaves at once and then the task and the clock are eager. -/
def Run.alone (n : Net σ ε) : Run t n where
  state
    | 0 => n
    | i + 1 => eagerly t n.drop i
  first := rfl
  next
    | 0 => .inr (.drop n)
    | i + 1 => eager_step_of_empty (eagerly_empty quiet rfl rfl i)

theorem Run.alone_steady (n : Net σ ε) : (Run.alone quiet n).Steady := by
  intro i
  cases i with
  | zero => rfl
  | succ i => exact (eagerly_flags t n.drop i).2

include quiet in
/-- A run that is left at once is deserted, if a task that waits for a timer steps before it has
expired only to wait no longer. -/
theorem Run.alone_deserted (n : Net σ ε)
    (patient : ∀ (m : Net σ ε) due, t.timer? m.task = some due → m.now < due →
      ∀ move ∈ m.moves t, t.timer? move.state ≠ some due) :
    (Run.alone quiet n).Deserted where
  left := ⟨1, rfl⟩
  works i able := by
    obtain ⟨move, more, hm⟩ := List.exists_cons_of_ne_nil (able (i + 1) (by omega))
    have next : (Run.alone quiet n).state (i + 2) = _ :=
      eager_of_moves (eagerly_empty quiet rfl rfl i) hm
    exact ⟨i + 1, by omega, move, hm ▸ List.mem_cons_self, next⟩
  elapses i due waits := by
    have empty : (eagerly t n.drop i).queue = [] := eagerly_empty quiet rfl rfl i
    rcases due_le_of_eager empty (waits (i + 1) (by omega)) (waits (i + 2) (by omega))
      (patient (eagerly t n.drop i) due (waits (i + 1) (by omega))) with past | past
    · exact ⟨i + 1, by omega, past⟩
    · exact ⟨i + 2, by omega, past⟩

end Deserted

end DeployWatch.Watch.Net
