/-
# Cancelling a poller

A cancel may come at any moment: before the first sample, during the wait between two samples or
during a sample, between two events, or while the queue is full.  From then on the account of the
watch only shrinks (`Poller.accounted_shrinks`), for a cancelled poller takes over no further
sample, and what it has queued stays queued or is received.  So what is ever received belongs to
the samples that were complete at the cancel.

The main statement is `Poller.cancels_safely`.  That the poller starts at most one more sample is
counted by `Phase.looksLeft`; that it comes to its end needs no promise about the sampler, since
every turn of a cancelled poller lowers its load.
-/

import DeployWatch.Proofs.Watch.Delivery

namespace DeployWatch.Watch

variable {σ ε : Type}

/-- The samples that a poller may still start once it is cancelled. -/
def Phase.looksLeft : Phase ε → Nat
  | .fresh => 1
  | .waiting _ => 1
  | .sampling _ => 0
  | .forwarding _ _ _ => 1
  | .ended => 0

theorem Phase.looksLeft_le_one (phase : Phase ε) : phase.looksLeft ≤ 1 := by
  cases phase <;> simp [looksLeft]

namespace Poller

open Net

variable {sampler : Sampler σ ε} {schedule : Schedule} {s : σ} {a b n m : Net (Poller σ ε) ε}

/-! ### After the cancel -/

/-- What is accounted for can only be cut off at its end once the watch is cancelled. -/
theorem accounted_shrinks (run : Steps (task sampler schedule) a b)
    (tracks : Tracks sampler s a.task) (off : a.cancelled = true) (here : b.gone = false) :
    accounted b <+: accounted a := by
  induction run with
  | refl => exact List.prefix_refl _
  | @tail b c before step ih =>
    have ih := ih (step.attached here)
    cases posting_of_step (tracks_of_steps before tracks) step here with
    | same accounted_eq => rw [accounted_eq]; exact ih
    | gained on => rw [before.cancelled off] at on; cases on
    | lost _ accounted_cut => exact accounted_cut.trans ih

/-- What has got into the queue is received or still there. -/
theorem sent_prefix_of_steps (run : Steps (task sampler schedule) a b) (here : b.gone = false) :
    sent a <+: sent b := by
  induction run with
  | refl => exact List.prefix_refl _
  | tail _ step ih => exact (ih (step.attached here)).trans (sent_prefix_of_step step here)

/-- The samples started and those that may still be started. -/
def looks (p : Poller σ ε) : Nat := p.startTimes.length + p.phase.looksLeft

/-- A turn of a cancelled poller starts only samples that were left to it. -/
theorem looks_le_of_turn {p : Poller σ ε} {v : View} {move : Move (Poller σ ε) ε}
    (off : v.cancelled = true) (turn : Turn sampler schedule v p move) :
    looks move.state ≤ looks p := by
  cases turn with
  | rest phase delay => simp [looks, startTimes, phase, Phase.looksLeft]
  | look ready =>
    rcases ready with ⟨phase, -⟩ | ⟨_, phase, -⟩ <;>
      simp [looks, startTimes, phase, Phase.looksLeft]
  | quit due phase | giveUp e rest terminal phase =>
    simp [looks, startTimes, phase, Phase.looksLeft]
  | discard due phase expired =>
    simp [looks, startTimes, answered, phase, Phase.looksLeft]
  | keep due phase expired on => rw [on] at off; cases off
  | send e rest terminal phase here room =>
    have left := Phase.looksLeft_le_one (p.forward schedule v.now rest terminal).phase
    have right : p.phase.looksLeft = 1 := by rw [phase]; rfl
    simp only [looks, length_startTimes, forward_answers, right]
    omega

theorem looks_le_of_steps (run : Steps (task sampler schedule) a b) (off : a.cancelled = true) :
    looks b.task ≤ looks a.task := by
  induction run with
  | refl => exact le_rfl
  | tail before step ih =>
    rcases step.task_eq_or_take with same | ⟨move, hm, rfl⟩
    · rw [same]; exact ih
    · exact le_trans (looks_le_of_turn (before.cancelled off) (mem_moves_iff.mp hm)) ih

/-! ### A cancelled poller does not wait -/

/-- The poller sleeps between two samples or waits for room in the queue. -/
def Idles (p : Poller σ ε) : Prop :=
  (∃ due, p.phase = .waiting due) ∨ ∃ e rest terminal, p.phase = .forwarding e rest terminal

/-- A cancelled poller that sleeps or waits for room may end at once. -/
theorem stop_mem_moves (idles : Idles n.task) (off : n.cancelled = true) :
    { state := n.task.stop } ∈ n.moves (task sampler schedule) := by
  refine mem_moves_iff.mpr ?_
  rcases idles with ⟨due, phase⟩ | ⟨e, rest, terminal, phase⟩
  · exact .quit due phase off
  · exact .giveUp e rest terminal phase (.inr off)

/-- No time passes while a cancelled poller sleeps or waits for room. -/
theorem now_eq_of_idles (idles : Idles n.task) (off : n.cancelled = true)
    (step : Step (task sampler schedule) n m) : m.now = n.now := by
  cases step with
  | task | drop | cancel => rfl
  | receive _ e _ h =>
    obtain ⟨rest, hq, rfl⟩ := receive?_eq_some h
    rfl
  | elapse now idle =>
    have stop : { state := n.task.stop } ∈ n.moves (task sampler schedule) :=
      stop_mem_moves idles off
    rw [idle] at stop
    cases stop

/-- A cancelled watch comes to its end. -/
theorem acc_of_cancelled (off : n.cancelled = true) : Acc (Ahead (task sampler schedule)) n := by
  refine acc_of_measure (P := fun n => n.cancelled = true) load ?_ off
  intro n m off ahead
  refine ⟨?_, load_lt ahead (.inl off)⟩
  rcases ahead_cases ahead with ⟨now, move, -, rfl⟩ | ⟨now, e, rest, -, rfl⟩ <;> exact off

/-! ### Cancellation -/

/-- A draining watch that has been cancelled comes to a state in which the queue reads closed, and
then all that was queued at the cancel has been received. -/
theorem exists_queued_received {run : Run (task sampler schedule) n} (fair : run.Draining)
    (off : n.cancelled = true) (room : 0 < n.capacity) :
    ∃ i, ∀ j ≥ i, (run.state j).isClosed (task sampler schedule) = true ∧
      sent n <+: (run.state j).received := by
  have resp := responsive sampler schedule
  have steady : run.Steady := fun i => ((run.steps i).cancelled off).trans off.symm
  obtain ⟨i, closed⟩ := fair.exists_isClosed steady resp room (acc_of_cancelled off)
  refine ⟨i, fun j le => ⟨Run.isClosed_of_le resp le closed, ?_⟩⟩
  obtain ⟨-, empty, -⟩ := Run.frozen_of_isClosed resp closed j le
  have kept := sent_prefix_of_steps (run.steps j) (fair.attached j)
  rwa [sent, sent, empty, List.append_nil] at kept

/-- **A poller is cancelled safely**, at whatever moment `n` of a watch that its consumer does not
leave.  In every state `m` after the cancel only events of the samples complete at `n` have been
received or queued, in their order, and what was queued at `n` is among them; at most one more
sample has been started; and where the poller sleeps or waits for room it may end at once and no
time passes until it does.  When the consumer goes on draining, the queue reads closed in the
end and stays so, and everything queued at `n` has been received. -/
theorem cancels_safely {capacity : Nat}
    (before : Steps (task sampler schedule)
      (Net.start ({ sampler := s } : Poller σ ε) capacity false) n)
    (on : n.cancelled = false) :
    (∀ m, Steps (task sampler schedule) n.cancel m → m.gone = false →
      m.received ++ m.queue <+: n.task.samples.flatMap Sample.events ∧
      n.received ++ n.queue <+: m.received ++ m.queue ∧
      m.task.startTimes.length ≤ n.task.startTimes.length + 1 ∧
      (Idles m.task → { state := m.task.stop } ∈ m.moves (task sampler schedule) ∧
        ∀ m', Step (task sampler schedule) m m' → m'.now = m.now)) ∧
    (∀ run : Run (task sampler schedule) n.cancel, run.Draining →
      ∃ i, ∀ j ≥ i, (run.state j).isClosed (task sampler schedule) = true ∧
        n.received ++ n.queue <+: (run.state j).received) := by
  have tracks := tracks_of_steps before (Tracks.fresh sampler s)
  constructor
  · intro m after here
    have off : m.cancelled = true := after.cancelled rfl
    have n_here : n.gone = false := after.attached here
    have queued : sent n.cancel <+: sent m := sent_prefix_of_steps after here
    refine ⟨?_, queued, ?_, fun idles => ⟨?_, ?_⟩⟩
    · have cut : accounted m <+: accounted n.cancel := accounted_shrinks after tracks rfl here
      have all : accounted n = n.task.emitted :=
        accounted_eq_emitted before (Tracks.fresh sampler s) (accounted_start s _ _) n_here on
      rw [show accounted n.cancel = accounted n from rfl, all] at cut
      exact (List.prefix_append _ _).trans cut
    · have counted := looks_le_of_steps after rfl
      have left := Phase.looksLeft_le_one n.cancel.task.phase
      simp only [looks] at counted
      exact le_trans (le_trans (Nat.le_add_right _ _) counted) (Nat.add_le_add_left left _)
    · exact stop_mem_moves idles off
    · exact fun m' step => now_eq_of_idles idles off step
  · intro run fair
    have room : 0 < n.capacity :=
      before.keeps (P := fun m => 0 < m.capacity) (fun step h => step.capacity_eq ▸ h)
        (start_capacity_pos _ _ _)
    exact exists_queued_received fair rfl room

/-- A sampler that gives three events at a time, three times a second. -/
def triples : Task (Poller Nat Nat) Nat :=
  task (.ofSequence (fun k => .emit [3 * k, 3 * k + 1, 3 * k + 2]) fun _ => 0) { interval := 333 }

/-- Its watch with the smallest queue when nobody receives: the queue holds the first event and
the poller waits for room. -/
def blocked : Net (Poller Nat Nat) Nat := (Net.start { sampler := 0 } 0 false).settle triples 10

/-- Cancelled while it waits for room, the poller may end at once; of its three events no other
will follow those that got into the queue, and the one in the queue will be received. -/
theorem cancels_blocked :
    blocked.queue = [0] ∧ blocked.task.phase = .forwarding 1 [2] false ∧
    { state := blocked.task.stop } ∈ blocked.cancel.moves triples ∧
    ∃ run : Run triples blocked.cancel, run.Draining ∧
      ∃ i, (run.state i).isClosed triples = true ∧ [0] <+: (run.state i).received ∧
        (run.state i).received <+: [0, 1, 2] := by
  have before : Steps triples (Net.start { sampler := 0 } 0 false) blocked :=
    steps_settle triples 10 _
  obtain ⟨safe, closes⟩ := cancels_safely before rfl
  obtain ⟨run, fair, -⟩ : ∃ run : Run triples blocked.cancel, run.Draining ∧ run.Steady :=
    exists_draining blocked.cancel rfl
  obtain ⟨i, closed⟩ := closes run fair
  obtain ⟨closed, kept⟩ := closed i le_rfl
  obtain ⟨-, -, -, stops⟩ := safe blocked.cancel (.refl _) rfl
  obtain ⟨within, -⟩ := safe (run.state i) (run.steps i) (fair.attached i)
  exact ⟨rfl, rfl, (stops (.inr ⟨1, [2], false, rfl⟩)).1, run, fair, i, closed, kept,
    (List.prefix_append _ _).trans within⟩

end Poller

end DeployWatch.Watch
