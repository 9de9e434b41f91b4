/-
# What a consumer is told

The actions of a consumer, which receives events singly or all together, waits, cancels or drops
its end, are made of steps of the watch: letting the task run, receiving, and letting time pass
while the task has nothing to do.  The last is a step only if the task has come to rest within a
burst (`Net.Calm`).

So every state of a session is one that steps lead to, and the events in the answers are those
received, from the beginning (`Session.tells_actAll`).  A poller that pauses between its samples
is calm (`Poller.calm_of_pause`), so whatever its consumer does, it is told of a part of the
events of the samples, from the beginning (`Poller.told_prefix_emitted`).
-/

import DeployWatch.Proofs.Watch.Delivery
import DeployWatch.Watch.Consumer

namespace DeployWatch.Watch

variable {σ ε : Type} {t : Task σ ε}

/-- The event that waiting for one gave. -/
def Reception.events : Reception ε → List ε
  | .event e => [e]
  | .closed => []
  | .timeout => []

/-- The events that an answer tells of. -/
def Answer.events : Answer ε → List ε
  | .received what _ => what.events
  | .drained events _ _ => events.map Prod.fst
  | .collected events _ => events
  | .done _ => []
  | .counted _ _ => []
  | .noHandle => []

namespace Net

variable {n m : Net σ ε} {es es' : List ε}

/-! ### Steps that keep the consumer attached -/

/-- Steps from `n` to `m` in which the consumer receives these events and does not leave. -/
structure Leads (t : Task σ ε) (n : Net σ ε) (es : List ε) (m : Net σ ε) : Prop where
  steps : Steps t n m
  received : m.received = n.received ++ es
  gone : m.gone = n.gone

theorem Leads.refl (t : Task σ ε) (n : Net σ ε) : Leads t n [] n :=
  ⟨.refl n, (List.append_nil _).symm, rfl⟩

theorem Leads.trans {k : Net σ ε} (first : Leads t n es m) (second : Leads t m es' k) :
    Leads t n (es ++ es') k where
  steps := first.steps.trans second.steps
  received := by rw [second.received, first.received, List.append_assoc]
  gone := second.gone.trans first.gone

/-- After steps without an event the same events are received. -/
theorem Leads.after {k : Net σ ε} (first : Leads t n [] m) (second : Leads t m es k) :
    Leads t n es k := first.trans second

theorem leads_settle (t : Task σ ε) (fuel : Nat) (n : Net σ ε) :
    Leads t n [] (n.settle t fuel) := by
  induction fuel generalizing n with
  | zero => exact .refl t n
  | succ fuel ih =>
    unfold settle step?
    cases hm : n.moves t with
    | nil => exact .refl t n
    | cons move more =>
      have step : Leads t n [] (n.take move) :=
        ⟨(Step.task n move (hm ▸ List.mem_cons_self)).steps, (List.append_nil _).symm, rfl⟩
      exact step.after (ih _)

theorem leads_receive {e : ε} (here : n.gone = false) (h : n.receive? = some (e, m)) :
    Leads t n [e] m := by
  have step : Step t n m := .receive n m e here h
  obtain ⟨rest, hq, rfl⟩ := receive?_eq_some h
  exact ⟨step.steps, rfl, rfl⟩

/-- Wherever the task is let run it comes to rest within a burst, and while it rests its timer has
not passed. -/
structure Calm (t : Task σ ε) (n : Net σ ε) : Prop where
  rests : ∀ m, Steps t n m → (m.settle t burst).moves t = []
  early : ∀ m, Steps t n m → m.moves t = [] → ∀ due, t.timer? m.task = some due → m.now ≤ due

theorem Calm.of_steps (calm : Calm t n) (run : Steps t n m) : Calm t m where
  rests k h := calm.rests k (run.trans h)
  early k h := calm.early k (run.trans h)

/-- A task comes to rest if what it does lowers a measure, and if it may do so often enough. -/
theorem settle_rests {P : Net σ ε → Prop} (f : Net σ ε → Nat)
    (down : ∀ k, P k → ∀ move ∈ k.moves t, P (k.take move) ∧ f (k.take move) < f k)
    {fuel : Nat} (h : P n) (enough : f n ≤ fuel) : (n.settle t fuel).moves t = [] := by
  induction fuel generalizing n with
  | zero =>
    refine List.eq_nil_iff_forall_not_mem.mpr fun move hm => ?_
    have := (down n h move hm).2
    omega
  | succ fuel ih =>
    unfold settle step?
    cases hm : n.moves t with
    | nil => exact hm
    | cons move more =>
      obtain ⟨next, less⟩ := down n h move (hm ▸ List.mem_cons_self)
      exact ih next (by omega)

/-- The clock jumps to the next timer or to the deadline. -/
theorem leads_jump (calm : Calm t n) (idle : n.moves t = []) {deadline : Nat}
    (le : n.now ≤ deadline) : Leads t n [] (n.advance (n.nextTime t deadline)) := by
  have early := calm.early n (.refl n) idle
  refine ⟨(Step.elapse n _ idle ?_ ?_).steps, (List.append_nil _).symm, rfl⟩
  · unfold nextTime
    split
    · exact Nat.le_max_left _ _
    · exact le
  · intro due timer
    have := early due timer
    simp only [nextTime, timer]
    omega

/-! ### The actions of a consumer -/

theorem leads_runUntil (calm : Calm t n) (time fuel : Nat) :
    Leads t n [] (n.runUntil t time fuel) := by
  induction fuel generalizing n with
  | zero => exact .refl t n
  | succ fuel ih =>
    unfold runUntil
    have run := leads_settle t burst n
    have idle := calm.rests n (.refl n)
    simp only
    split
    · exact run
    · next early =>
      have jump := leads_jump (calm.of_steps run.steps) idle (Nat.le_of_not_le early)
      have both := run.after jump
      exact both.after (ih (calm.of_steps both.steps))

theorem leads_awaitUntil (calm : Calm t n) (here : n.gone = false) (deadline fuel : Nat) :
    Leads t n (n.awaitUntil t deadline fuel).1.events (n.awaitUntil t deadline fuel).2 := by
  fun_induction awaitUntil t deadline fuel n with
  | case1 fuel n e next h => exact leads_receive here h
  | case2 fuel n empty closed => exact .refl t n
  | case3 fuel n empty opened k e next h =>
    have run := leads_settle t burst n
    exact run.after (leads_receive (run.gone.trans here) h)
  | case4 => exact leads_settle t burst _
  | case5 => exact leads_settle t burst _
  | case6 => exact leads_settle t burst _
  | case7 n empty opened k none_yet still early fuel ih =>
    have run := leads_settle t burst n
    have jump := leads_jump (calm.of_steps run.steps) (calm.rests n (.refl n))
      (Nat.le_of_not_le early)
    have both := run.after jump
    exact both.after (ih (calm.of_steps both.steps) (both.gone.trans here))

theorem leads_drainUpTo (calm : Calm t n) (here : n.gone = false) (limit fuel : Nat) :
    Leads t n ((n.drainUpTo t limit fuel).1.map Prod.fst) (n.drainUpTo t limit fuel).2.2 := by
  induction fuel generalizing n with
  | zero => exact .refl t n
  | succ fuel ih =>
    have first := leads_awaitUntil calm here (n.now + limit) (limit + 2)
    unfold drainUpTo await
    cases h : n.awaitUntil t (n.now + limit) (limit + 2) with
    | mk what next =>
      rw [h] at first
      cases what with
      | event e => exact first.trans (ih (calm.of_steps first.steps) (first.gone.trans here))
      | closed | timeout => exact first

/-- Collecting receives the events that it gives; if it gives none, it may have received some. -/
theorem leads_collectUpTo (calm : Calm t n) (here : n.gone = false) (deadline fuel : Nat) :
    ∃ es, Leads t n es (n.collectUpTo t deadline fuel).2 ∧
      ∀ given, (n.collectUpTo t deadline fuel).1 = some given → given = es := by
  induction fuel generalizing n with
  | zero => exact ⟨[], .refl t n, by rintro _ ⟨⟩⟩
  | succ fuel ih =>
    have first := leads_awaitUntil calm here deadline (deadline - n.now + 2)
    unfold collectUpTo
    cases h : n.awaitUntil t deadline (deadline - n.now + 2) with
    | mk what next =>
      rw [h] at first
      cases what with
      | event e =>
        obtain ⟨es, rest, same⟩ := ih (calm.of_steps first.steps) (first.gone.trans here)
        refine ⟨[e] ++ es, first.trans rest, fun given h => ?_⟩
        obtain ⟨more, hm, rfl⟩ := Option.map_eq_some_iff.mp h
        rw [same more hm]
        rfl
      | closed => exact ⟨[], first, by rintro _ ⟨⟩; rfl⟩
      | timeout => exact ⟨[], first, by rintro _ ⟨⟩⟩

end Net

/-! ### Sessions -/

namespace Session

variable {calls : σ → Nat} {cancellable : Bool} {s s' : Session σ ε}

/-- A consumer that has its end of the queue has not dropped it. -/
def Coherent (s : Session σ ε) : Prop := s.attached = true → s.net.gone = false

/-- What an action, or several, do to a session: they are steps of its watch, and tell only of
events that are received, in their order.  Whoever still has the handle was told of all of them,
and whoever has it no more is told of none. -/
structure Tells (t : Task σ ε) (s : Session σ ε) (told : List ε) (s' : Session σ ε) : Prop where
  steps : Net.Steps t s.net s'.net
  coherent : Coherent s'
  all : s'.attached = true → s'.net.received = s.net.received ++ told
  within : s.net.received ++ told <+: s'.net.received
  left : s.attached = false → s'.attached = false ∧ told = []

theorem Tells.refl (t : Task σ ε) (coherent : Coherent s) : Tells t s [] s where
  steps := .refl _
  coherent := coherent
  all _ := (List.append_nil _).symm
  within := by rw [List.append_nil]
  left none := ⟨none, rfl⟩

theorem Tells.trans {k : Session σ ε} {told told' : List ε} (first : Tells t s told s')
    (second : Tells t s' told' k) : Tells t s (told ++ told') k where
  steps := first.steps.trans second.steps
  coherent := second.coherent
  all here := by
    have still : s'.attached = true := by
      by_contra gone
      rw [(second.left (by simpa using gone)).1] at here
      cases here
    rw [second.all here, first.all still, List.append_assoc]
  within := by
    rw [← List.append_assoc]
    by_cases still : s'.attached = true
    · rw [← first.all still]
      exact second.within
    · have nothing := (second.left (by simpa using still)).2
      have more := second.within
      rw [nothing, List.append_nil] at more ⊢
      exact first.within.trans more
  left gone := by
    obtain ⟨still, rfl⟩ := first.left gone
    obtain ⟨last, rfl⟩ := second.left still
    exact ⟨last, rfl⟩

/-- Steps in which the consumer keeps its handle tell of what is received. -/
theorem tells_of_leads {told : List ε} {n : Net σ ε} (coherent : Coherent s)
    (leads : Net.Leads t s.net told n) (left : s.attached = false → told = []) :
    Tells t s told { s with net := n } where
  steps := leads.steps
  coherent here := leads.gone.trans (coherent here)
  all _ := leads.received
  within := by rw [leads.received]
  left gone := ⟨gone, left gone⟩

/-- Steps after which the handle is gone tell of some of what is received. -/
theorem tells_of_drop {told es : List ε} {n : Net σ ε} (leads : Net.Leads t s.net es n)
    (here : s.attached = true) (told_eq : told = es ∨ told = []) :
    Tells t s told ⟨n.drop, false⟩ where
  steps := leads.steps.tail (.drop n)
  coherent := by rintro ⟨⟩
  all := by rintro ⟨⟩
  within := by
    have received : n.drop.received = s.net.received ++ es := leads.received
    rw [received]
    rcases told_eq with rfl | rfl
    · exact List.prefix_refl _
    · rw [List.append_nil]; exact List.prefix_append _ _
  left gone := by rw [here] at gone; cases gone

/-- An action without a handle does nothing. -/
theorem act_of_left (gone : s.attached = false) {action : Act}
    (needs : action = .drop ∨ ∃ limit, action = .receive limit ∨ action = .drain limit ∨
      action = .collect limit) :
    s.act t calls cancellable action = (s, .noHandle) := by
  rcases needs with rfl | ⟨limit, rfl | rfl | rfl⟩ <;> simp [act, gone]

/-- An action of the consumer is made of steps of the watch. -/
theorem tells_act (calm : Net.Calm t s.net) (coherent : Coherent s) (action : Act) :
    Tells t s (s.act t calls cancellable action).2.events
      (s.act t calls cancellable action).1 := by
  cases action with
  | wait ms => exact tells_of_leads coherent (Net.leads_runUntil calm _ _) fun _ => rfl
  | cancel =>
    cases cancellable with
    | true =>
      exact tells_of_leads coherent ⟨(Net.Step.cancel s.net).steps, (List.append_nil _).symm, rfl⟩
        fun _ => rfl
    | false => exact .refl t coherent
  | count => exact .refl t coherent
  | receive limit =>
    cases here : s.attached with
    | false => rw [act_of_left here (.inr ⟨limit, .inl rfl⟩)]; exact .refl t coherent
    | true =>
      have leads := Net.leads_awaitUntil calm (coherent here) (s.net.now + limit) (limit + 2)
      simp only [act, here, Bool.not_true, Bool.false_eq_true, if_false]
      have told := tells_of_leads coherent leads (by rw [here]; rintro ⟨⟩)
      rw [here] at told
      exact told
  | drain limit =>
    cases here : s.attached with
    | false => rw [act_of_left here (.inr ⟨limit, .inr (.inl rfl)⟩)]; exact .refl t coherent
    | true =>
      have leads := Net.leads_drainUpTo calm (coherent here) limit batch
      simp only [act, here, Bool.not_true, Bool.false_eq_true, if_false]
      have told := tells_of_leads coherent leads (by rw [here]; rintro ⟨⟩)
      rw [here] at told
      exact told
  | collect limit =>
    cases here : s.attached with
    | false => rw [act_of_left here (.inr ⟨limit, .inr (.inr rfl)⟩)]; exact .refl t coherent
    | true =>
      obtain ⟨es, leads, same⟩ :=
        Net.leads_collectUpTo calm (coherent here) (s.net.now + limit) batch
      simp only [act, here, Bool.not_true, Bool.false_eq_true, if_false]
      refine tells_of_drop leads here ?_
      split
      · next events given => exact .inl (same events given)
      · exact .inr rfl
  | drop =>
    cases here : s.attached with
    | false => rw [act_of_left here (.inl rfl)]; exact .refl t coherent
    | true =>
      simp only [act, here, Bool.not_true, Bool.false_eq_true, if_false]
      exact tells_of_drop (.refl t s.net) here (.inl rfl)

/-- **What a consumer does is made of steps of the watch**, and what it is told is received, from
the beginning. -/
theorem tells_actAll (calm : Net.Calm t s.net) (coherent : Coherent s) (actions : List Act) :
    Tells t s ((s.actAll t calls cancellable actions).2.flatMap Answer.events)
      (s.actAll t calls cancellable actions).1 := by
  induction actions generalizing s with
  | nil => exact .refl t coherent
  | cons action actions ih =>
    have first : Tells t s _ (s.act t calls cancellable action).1 := tells_act calm coherent action
    exact first.trans (ih (calm.of_steps first.steps) first.coherent)

end Session

namespace Poller

variable {sampler : Sampler σ ε} {schedule : Schedule} {s : σ}

/-! ### Pollers are calm -/

/-- The turns that a poller can take at most before time passes, if its samples have at most so
many events. -/
def turnsLeft (most now : Nat) : Phase ε → Nat
  | .fresh => most + 5
  | .waiting due => if due ≤ now then most + 4 else 1
  | .sampling _ => most + 3
  | .forwarding _ rest _ => rest.length + 3
  | .ended => 0

theorem turnsLeft_forward_le {p : Poller σ ε} (pause : 0 < schedule.interval) (most now : Nat)
    (events : List ε) (terminal : Bool) :
    turnsLeft most now (p.forward schedule now events terminal).phase ≤ events.length + 2 := by
  cases events with
  | cons => simp [forward, turnsLeft]
  | nil =>
    have later : ¬ now + schedule.interval ≤ now := by omega
    cases terminal <;> simp [forward, turnsLeft, later]

/-- Without the passing of time a poller that pauses between its samples comes to rest. -/
theorem turnsLeft_lt {p : Poller σ ε} {v : View} {move : Move (Poller σ ε) ε} {most : Nat}
    (pause : 0 < schedule.interval)
    (few : ∀ now s, (sampler.finish now s).2.events.length ≤ most)
    (turn : Turn sampler schedule v p move) :
    turnsLeft most v.now move.state.phase < turnsLeft most v.now p.phase := by
  cases turn with
  | rest phase =>
    have later : ¬ v.now + schedule.interval ≤ v.now := by omega
    simp [turnsLeft, phase, later]
  | look ready =>
    rcases ready with ⟨phase, -⟩ | ⟨due, phase, expired⟩
    · simp [turnsLeft, phase]
    · simp [turnsLeft, phase, expired]
  | quit due phase off =>
    by_cases expired : due ≤ v.now <;> simp [turnsLeft, phase, expired]
  | discard due phase => simp [turnsLeft, phase]
  | keep due phase =>
    have last := turnsLeft_forward_le (p := p.answered sampler v.now) pause most v.now
      (sampler.finish v.now p.sampler).2.events (sampler.finish v.now p.sampler).2.terminal
    have bound := few v.now p.sampler
    refine lt_of_le_of_lt last ?_
    simp only [phase, turnsLeft]
    omega
  | send e rest terminal phase =>
    refine lt_of_le_of_lt (turnsLeft_forward_le pause most v.now rest terminal) ?_
    simp only [phase, turnsLeft]
    omega
  | giveUp e rest terminal phase => simp [turnsLeft, phase]

/-- A poller never holds more events than a sample has. -/
theorem held_le_of_steps {n m : Net (Poller σ ε) ε} {most : Nat}
    (few : ∀ now s, (sampler.finish now s).2.events.length ≤ most)
    (run : Net.Steps (task sampler schedule) n m) (h : n.task.phase.held.length ≤ most) :
    m.task.phase.held.length ≤ most := by
  refine run.keeps_task (P := fun p => p.phase.held.length ≤ most) (fun v p move hm h => ?_) h
  cases mem_moves_iff.mp hm with
  | keep due phase expired on => simpa [proceeding] using few v.now p.sampler
  | send e rest terminal phase =>
    simp only [phase, Phase.held_forwarding, List.length_cons] at h
    simp only [forward_held]
    omega
  | rest | look | quit | discard | giveUp => simp

/-- A poller that pauses between its samples is calm, if they have few events. -/
theorem calm_of_pause {capacity most : Nat} {cancelled : Bool} (pause : 0 < schedule.interval)
    (few : ∀ now s, (sampler.finish now s).2.events.length ≤ most) (burst_le : most + 5 ≤ burst) :
    Net.Calm (task sampler schedule)
      (Net.start ({ sampler := s } : Poller σ ε) capacity cancelled) where
  rests m run := by
    have held := held_le_of_steps few run (Nat.zero_le _)
    refine Net.settle_rests (P := fun _ => True) (fun k => turnsLeft most k.now k.task.phase)
      (fun k _ move hm => ⟨trivial, turnsLeft_lt pause few (mem_moves_iff.mp hm)⟩) trivial ?_
    cases phase : m.task.phase with
    | fresh | sampling | ended => simp only [turnsLeft]; omega
    | waiting due => simp only [turnsLeft]; split <;> omega
    | forwarding e rest terminal =>
      simp only [phase, Phase.held_forwarding, List.length_cons] at held
      simp only [turnsLeft]
      omega
  early m _ idle due timer := by
    have timer : m.task.timer? = some due := timer
    by_contra passed
    have expired : due ≤ m.view.now := Nat.le_of_not_le passed
    have some_move : ∀ {move}, ¬ Turn sampler schedule m.view m.task move := fun turn =>
      moves_ne_nil turn idle
    cases phase : m.task.phase with
    | waiting due' =>
      obtain rfl : due' = due := by simpa [timer?, phase] using timer
      exact some_move (.look (.inr ⟨due', phase, expired⟩))
    | sampling due' =>
      obtain rfl : due' = due := by simpa [timer?, phase] using timer
      cases off : m.view.cancelled with
      | true => exact some_move (.discard due' phase expired off)
      | false => exact some_move (.keep due' phase expired off)
    | fresh | forwarding | ended => simp [timer?, phase] at timer

/-- **Whatever its consumer does, it is told of the samples in their order.**  The events in the
answers to any actions, in a row, are a part of the events of the samples so far, from the
beginning. -/
theorem told_prefix_emitted {capacity : Nat} {cancelled cancellable : Bool}
    {calls : Poller σ ε → Nat} {most : Nat} (actions : List Act) (pause : 0 < schedule.interval)
    (few : ∀ now s, (sampler.finish now s).2.events.length ≤ most) (burst_le : most + 5 ≤ burst) :
    let session := (⟨Net.start { sampler := s } capacity cancelled, true⟩ : Session _ _).actAll
      (task sampler schedule) calls cancellable actions
    session.2.flatMap Answer.events <+: session.1.net.task.emitted := by
  intro session
  have tells : Session.Tells (task sampler schedule) _ _ session.1 :=
    Session.tells_actAll (calm_of_pause pause few burst_le) (fun _ => rfl) actions
  exact tells.within.trans
    (received_prefix_emitted tells.steps (Tracks.fresh sampler s) (accounted_start s _ _))

end Poller

end DeployWatch.Watch
