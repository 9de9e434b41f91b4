/-
# A poller keeps pace

A round of a poller is one sample with all that comes of it: it starts, it gives its result, and
the events of the result get into the queue one by one.  The deeds of a poller, whatever its
consumer does, are complete rounds in a row and perhaps one that is not complete yet.  The first
round starts at once or after one interval, and each other one an interval after the last deed of
the round before it (`Paced`).  So samples do not overlap, none is started while an event of an
earlier one is not queued, and a poller holds the events of one sample at most.

In which round a poller is, and how far it has got, is a matter of its phase (`Poller.Beat`), and
every step keeps this (`Poller.Beat.step`).  The main statement is `Poller.keeps_pace`.
-/

import DeployWatch.Proofs.Watch.Deeds

namespace DeployWatch.Watch

variable {σ ε : Type}

/-- A sample and what has come of it. -/
structure Round (ε : Type) where
  started : Nat
  returned : Nat
  /-- The events that are queued, each with its time. -/
  queued : List (Nat × ε) := []
  /-- The events that are not queued yet. -/
  left : List ε := []
  terminal : Bool := false

namespace Round

/-- The sample of a round. -/
def sample (r : Round ε) : Sample ε := ⟨r.queued.map Prod.snd ++ r.left, r.terminal⟩

/-- The deeds of a round, in their order. -/
def deeds (r : Round ε) : List (Nat × Deed ε) :=
  (r.started, .starts) :: (r.returned, .returns r.sample) ::
    r.queued.map fun (time, e) => (time, .queues e)

/-- The time of the last deed of a round. -/
def lastTime (r : Round ε) : Nat := (r.queued.getLast?.map Prod.fst).getD r.returned

/-- A round in which the next event has been queued. -/
def queue (r : Round ε) (now : Nat) (e : ε) (rest : List ε) : Round ε :=
  { r with queued := r.queued ++ [(now, e)], left := rest }

@[simp] theorem queue_left (r : Round ε) (now : Nat) (e : ε) (rest : List ε) :
    (r.queue now e rest).left = rest := rfl

@[simp] theorem queue_lastTime (r : Round ε) (now : Nat) (e : ε) (rest : List ε) :
    (r.queue now e rest).lastTime = now := by
  simp [queue, lastTime]

/-- Queueing the next event of a round is one more deed. -/
theorem deeds_queue {r : Round ε} {e : ε} {rest : List ε} (left : r.left = e :: rest) (now : Nat) :
    (r.queue now e rest).deeds = r.deeds ++ [(now, .queues e)] := by
  simp [deeds, queue, sample, left]

end Round

/-- When the next round is to start. -/
def nextStart (schedule : Schedule) (rounds : List (Round ε)) : Nat :=
  match rounds.getLast? with
  | none => if schedule.delayFirst then schedule.interval else 0
  | some r => r.lastTime + schedule.interval

@[simp] theorem nextStart_nil (schedule : Schedule) :
    nextStart schedule ([] : List (Round ε)) =
      if schedule.delayFirst then schedule.interval else 0 := rfl

@[simp] theorem nextStart_concat (schedule : Schedule) (rounds : List (Round ε)) (r : Round ε) :
    nextStart schedule (rounds ++ [r]) = r.lastTime + schedule.interval := by
  simp [nextStart]

/-- Complete rounds, each of which started when it was to start. -/
inductive Paced (schedule : Schedule) : List (Round ε) → Prop
  | nil : Paced schedule []
  | snoc {rounds : List (Round ε)} (before : Paced schedule rounds) (r : Round ε)
      (complete : r.left = []) (start : r.started = nextStart schedule rounds) :
      Paced schedule (rounds ++ [r])

/-- `Opened start left deeds`: what there is of a round that is to start at a time, if it has these
events left to queue. -/
inductive Opened (start : Nat) : List ε → List (Nat × Deed ε) → Prop
  /-- It has not started. -/
  | ahead : Opened start [] []
  /-- Its sample is in flight. -/
  | inFlight : Opened start [] [(start, .starts)]
  /-- Its sample has given its result. -/
  | returned (r : Round ε) (h : r.started = start) : Opened start r.left r.deeds

namespace Poller

open Net

variable {sampler : Sampler σ ε} {schedule : Schedule} {s : σ} {p : Poller σ ε}
  {n m : Net (Poller σ ε) ε} {log : List (Nat × Deed ε)} {rounds : List (Round ε)}

/-! ### Where a poller is in its rounds -/

/-- Complete rounds in a row, and then a round that may not be complete. -/
structure InRounds (schedule : Schedule) (log : List (Nat × Deed ε)) (rounds : List (Round ε))
    (left : List ε) (rest : List (Nat × Deed ε)) : Prop where
  paced : Paced schedule rounds
  opened : Opened (nextStart schedule rounds) left rest
  log_eq : log = rounds.flatMap Round.deeds ++ rest

/-- Why a poller takes no further sample: it was cancelled or left alone, or its last round was
complete and terminal. -/
def Ceased (n : Net (Poller σ ε) ε) (rounds : List (Round ε)) (rest : List (Nat × Deed ε)) : Prop :=
  n.cancelled = true ∨ n.gone = true ∨ rest = [] ∧ ∃ r ∈ rounds.getLast?, r.terminal = true

/-- Where a poller is in its rounds in each of its phases. -/
inductive Beat (schedule : Schedule) (n : Net (Poller σ ε) ε) (log : List (Nat × Deed ε)) :
    Phase ε → Prop
  | fresh (zero : n.now = 0) (none_yet : log = []) : Beat schedule n log .fresh
  /-- The next round is due. -/
  | waiting (rounds : List (Round ε)) (early : n.now ≤ nextStart schedule rounds)
      (at_rest : InRounds schedule log rounds [] []) :
      Beat schedule n log (.waiting (nextStart schedule rounds))
  | sampling (rounds : List (Round ε)) (due : Nat)
      (inRounds : InRounds schedule log rounds [] [(nextStart schedule rounds, .starts)]) :
      Beat schedule n log (.sampling due)
  | forwarding (rounds : List (Round ε)) (r : Round ε) (e : ε) (rest : List ε)
      (left : r.left = e :: rest) (start : r.started = nextStart schedule rounds)
      (inRounds : InRounds schedule log rounds r.left r.deeds) :
      Beat schedule n log (.forwarding e rest r.terminal)
  | ended (rounds : List (Round ε)) (left : List ε) (rest : List (Nat × Deed ε))
      (ceased : Ceased n rounds rest) (inRounds : InRounds schedule log rounds left rest) :
      Beat schedule n log .ended

/-- A complete round is one more round in the row. -/
theorem InRounds.complete {r : Round ε} (h : InRounds schedule log rounds r.left r.deeds)
    (complete : r.left = []) (start : r.started = nextStart schedule rounds) :
    InRounds schedule log (rounds ++ [r]) [] [] where
  paced := h.paced.snoc r complete start
  opened := .ahead
  log_eq := by rw [h.log_eq]; simp

/-- Where a poller is that goes on to the events left of a round, at the time of its last deed. -/
theorem beat_forward {r : Round ε} (start : r.started = nextStart schedule rounds)
    (inRounds : InRounds schedule log rounds r.left r.deeds) (now : n.now = r.lastTime) :
    Beat schedule n log (p.forward schedule n.now r.left r.terminal).phase := by
  cases left : r.left with
  | cons e rest => exact .forwarding rounds r e rest left start inRounds
  | nil =>
    have complete := inRounds.complete left start
    cases terminal : r.terminal with
    | true =>
      have ceased : Ceased n (rounds ++ [r]) [] := .inr (.inr ⟨rfl, r, by simp, terminal⟩)
      simpa [forward] using Beat.ended (rounds ++ [r]) [] [] ceased complete
    | false =>
      have due : n.now + schedule.interval = nextStart schedule (rounds ++ [r]) := by
        rw [nextStart_concat, now]
      have early : n.now ≤ nextStart schedule (rounds ++ [r]) := by omega
      have beat := Beat.waiting (n := n) (rounds ++ [r]) early complete
      rw [← due] at beat
      simpa [forward] using beat

/-! ### Every step keeps the beat -/

/-- A result turns the sample in flight into a round of which all events are left. -/
theorem InRounds.returns (h : InRounds schedule log rounds [] [(nextStart schedule rounds, .starts)])
    (now : Nat) (sample : Sample ε) :
    ∃ r : Round ε, r.left = sample.events ∧ r.terminal = sample.terminal ∧ r.lastTime = now ∧
      r.started = nextStart schedule rounds ∧
      InRounds schedule (log ++ [(now, .returns sample)]) rounds r.left r.deeds := by
  let r : Round ε :=
    { started := nextStart schedule rounds, returned := now, left := sample.events,
      terminal := sample.terminal }
  refine ⟨r, rfl, rfl, rfl, rfl, h.paced, .returned r rfl, ?_⟩
  rw [h.log_eq, List.append_assoc]
  rfl

/-- A turn of the poller keeps the beat. -/
theorem Beat.turn (beat : Beat schedule n log n.task.phase) (tracks : Tracks sampler s n.task)
    {move : Move (Poller σ ε) ε} (turn : Turn sampler schedule n.view n.task move) :
    Beat schedule (n.take move) (log ++ deeds n (n.take move)) move.state.phase := by
  cases turn with
  | rest phase delay =>
    rw [phase] at beat
    cases beat with
    | fresh zero none_yet =>
      have due : nextStart schedule ([] : List (Round ε)) = n.view.now + schedule.interval := by
        simp [view, zero, delay]
      rw [deeds_of_cycles_eq rfl rfl, List.append_nil, none_yet, ← due]
      refine .waiting [] ?_ ⟨.nil, .ahead, rfl⟩
      change n.now ≤ _
      omega
  | look ready =>
    rw [deeds_look]
    rcases ready with ⟨phase, soon⟩ | ⟨due, phase, expired⟩
    · rw [phase] at beat
      cases beat with
      | fresh zero none_yet =>
        have start : nextStart schedule ([] : List (Round ε)) = n.now := by simp [soon, zero]
        refine .sampling [] _ ⟨.nil, .inFlight, ?_⟩
        rw [none_yet, start]
        rfl
    · rw [phase] at beat
      cases beat with
      | waiting rounds early at_rest =>
        have start : n.now = nextStart schedule rounds := le_antisymm early expired
        refine .sampling rounds _ ⟨at_rest.paced, .inFlight, ?_⟩
        rw [at_rest.log_eq, start, List.append_nil]
  | quit due phase off =>
    rw [phase] at beat
    rw [deeds_of_cycles_eq rfl rfl, List.append_nil]
    cases beat with
    | waiting rounds early at_rest => exact .ended rounds [] [] (.inl off) at_rest
  | discard due phase expired off =>
    rw [deeds_discard tracks phase]
    rw [phase] at beat
    cases beat with
    | sampling rounds _ inRounds =>
      obtain ⟨r, -, -, -, -, inRounds⟩ := inRounds.returns n.now _
      exact .ended rounds _ _ (.inl off) inRounds
  | keep due phase expired on =>
    rw [deeds_keep tracks phase]
    rw [phase] at beat
    cases beat with
    | sampling rounds _ inRounds =>
      obtain ⟨r, left, terminal, last, start, inRounds⟩ := inRounds.returns n.now
        (sampler.finish n.view.now n.task.sampler).2
      rw [proceeding, ← left, ← terminal]
      exact beat_forward (n := n.take _) start inRounds last.symm
  | send e rest terminal phase here room =>
    rw [deeds_send]
    rw [phase] at beat
    cases beat with
    | forwarding rounds r e rest left start inRounds =>
      have queued : InRounds schedule (log ++ [(n.now, .queues e)]) rounds
          (r.queue n.now e rest).left (r.queue n.now e rest).deeds := by
        refine ⟨inRounds.paced, .returned (r.queue n.now e rest) start, ?_⟩
        rw [Round.deeds_queue left, inRounds.log_eq, List.append_assoc]
      have start : (r.queue n.now e rest).started = nextStart schedule rounds := start
      exact beat_forward (n := n.take _) start queued (Round.queue_lastTime r n.now e rest).symm
  | giveUp e rest terminal phase off =>
    rw [deeds_of_cycles_eq rfl rfl, List.append_nil]
    rw [phase] at beat
    cases beat with
    | forwarding rounds r e rest left start inRounds =>
      have ceased : Ceased (n.take { state := n.task.stop }) rounds r.deeds := by
        rcases off with gone | off
        · exact .inr (.inl gone)
        · exact .inl off
      exact .ended rounds r.left r.deeds ceased inRounds

/-- What happens around the poller leaves the beat as it is. -/
theorem Beat.around {phase : Phase ε} (beat : Beat schedule n log phase)
    (zero : phase = .fresh → m.now = n.now)
    (early : ∀ due, phase = .waiting due → n.now ≤ due → m.now ≤ due)
    (off : n.cancelled = true → m.cancelled = true) (gone : n.gone = true → m.gone = true) :
    Beat schedule m log phase := by
  cases beat with
  | fresh start none_yet => exact .fresh ((zero rfl).trans start) none_yet
  | waiting rounds soon at_rest => exact .waiting rounds (early _ rfl soon) at_rest
  | sampling rounds due inRounds => exact .sampling rounds due inRounds
  | forwarding rounds r e rest left start inRounds =>
    exact .forwarding rounds r e rest left start inRounds
  | ended rounds left rest ceased inRounds =>
    exact .ended rounds left rest (ceased.imp off (Or.imp_left gone)) inRounds

/-- Every step keeps the beat. -/
theorem Beat.step (beat : Beat schedule n log n.task.phase) (tracks : Tracks sampler s n.task)
    (step : Step (task sampler schedule) n m) :
    Beat schedule m (log ++ deeds n m) m.task.phase := by
  rcases turn_or_still step with ⟨move, turn, rfl⟩ | ⟨same, still⟩
  · exact beat.turn tracks turn
  · rw [still, List.append_nil, same]
    refine beat.around ?_ ?_ step.cancelled step.gone
    · intro phase
      exact step.now_eq (moves_ne_nil_of_fresh phase)
    · intro due phase soon
      apply step.now_le_timer _ soon
      simp [task, timer?, phase]

theorem beat_of_chronicle {capacity : Nat} {cancelled : Bool}
    (chronicle : Chronicle (task sampler schedule) deeds
      (Net.start ({ sampler := s } : Poller σ ε) capacity cancelled) log n) :
    Beat schedule n log n.task.phase := by
  induction chronicle with
  | nil => exact .fresh rfl rfl
  | snoc before step ih =>
    exact ih.step (tracks_of_steps before.steps (Tracks.fresh sampler s)) step

/-! ### The queue -/

/-- A poller queues an event only if there is room. -/
theorem queue_le_of_step (step : Step (task sampler schedule) n m)
    (h : n.queue.length ≤ n.capacity) : m.queue.length ≤ m.capacity := by
  rw [step.capacity_eq]
  cases step with
  | task move hm =>
    cases mem_moves_iff.mp hm with
    | send e rest terminal phase here room =>
      have room : n.queue.length < n.capacity := by simpa [view] using room
      simpa [take, Nat.succ_le_iff] using room
    | rest | look | quit | discard | keep | giveUp => simpa [take] using h
  | receive _ e _ received =>
    obtain ⟨rest, hq, rfl⟩ := receive?_eq_some received
    rw [hq, List.length_cons] at h
    change rest.length ≤ n.capacity
    omega
  | drop => exact Nat.zero_le _
  | cancel | elapse => exact h

/-! ### Keeping pace -/

/-- How a poller keeps pace: complete rounds in a row, and then a round that may not be complete.
-/
structure KeepsPace (schedule : Schedule) (n : Net (Poller σ ε) ε) (log : List (Nat × Deed ε))
    (rounds : List (Round ε)) (left : List ε) (rest : List (Nat × Deed ε)) : Prop
    extends InRounds schedule log rounds left rest where
  /-- What the poller holds is what is left of the last round. -/
  holds : n.task.phase ≠ .ended → n.task.phase.held = left
  /-- The clock does not pass the time at which a round is to start before it has started. -/
  early : n.task.phase ≠ .ended → rest = [] → n.now ≤ nextStart schedule rounds
  /-- There is no further round only if the poller was cancelled or left alone, or after a terminal
  sample. -/
  ceased : n.task.phase = .ended → Ceased n rounds rest

theorem Beat.keepsPace (beat : Beat schedule n log n.task.phase) :
    ∃ rounds left rest, KeepsPace schedule n log rounds left rest := by
  generalize phase : n.task.phase = current at beat
  cases beat with
  | fresh zero none_yet =>
    refine ⟨[], [], [], ⟨.nil, .ahead, none_yet⟩, ?_, ?_, ?_⟩
    · intro _
      simp [phase]
    · intro _ _
      rw [zero]
      exact Nat.zero_le _
    · intro ended
      rw [phase] at ended
      cases ended
  | waiting rounds early at_rest =>
    refine ⟨rounds, [], [], at_rest, ?_, fun _ _ => early, ?_⟩
    · intro _
      simp [phase]
    · intro ended
      rw [phase] at ended
      cases ended
  | sampling rounds due inRounds =>
    refine ⟨rounds, [], _, inRounds, ?_, ?_, ?_⟩
    · intro _
      simp [phase]
    · intro _ none_yet
      cases none_yet
    · intro ended
      rw [phase] at ended
      cases ended
  | forwarding rounds r e rest left start inRounds =>
    refine ⟨rounds, _, _, inRounds, ?_, ?_, ?_⟩
    · intro _
      simp [phase, left]
    · intro _ none_yet
      cases none_yet
    · intro ended
      rw [phase] at ended
      cases ended
  | ended rounds left rest ceased inRounds =>
    exact ⟨rounds, left, rest, inRounds, absurd phase, absurd phase, fun _ => ceased⟩

/-- **A poller keeps pace**, whatever its consumer does and at whatever moment.  Its queue never
holds more events than its capacity, which is one at least.  Its deeds are complete rounds in a
row, the first one started at once or after one interval and each other one an interval after the
last deed of the round before, and then perhaps a round that is not complete, started at such a
time as well; what the poller holds is what is left of this one. -/
theorem keeps_pace (sampler : Sampler σ ε) (schedule : Schedule) (s : σ) (capacity : Nat)
    (cancelled : Bool) {log : List (Nat × Deed ε)} {n : Net (Poller σ ε) ε}
    (chronicle : Chronicle (task sampler schedule) deeds
      (Net.start { sampler := s } capacity cancelled) log n) :
    n.queue.length ≤ max capacity 1 ∧
      ∃ rounds left rest, KeepsPace schedule n log rounds left rest := by
  constructor
  · have bounded : n.queue.length ≤ n.capacity :=
      chronicle.steps.keeps (P := fun m => m.queue.length ≤ m.capacity)
        (fun step => queue_le_of_step step) (Nat.zero_le _)
    have capacity_eq : n.capacity = max capacity 1 :=
      chronicle.steps.keeps (P := fun m => m.capacity = max capacity 1)
        (fun step h => step.capacity_eq.trans h) rfl
    rwa [capacity_eq] at bounded
  · exact (beat_of_chronicle chronicle).keepsPace

/-- Two events at a time, then nothing, then a last event; every sample takes longer than the one
before. -/
def unhurried : Task (Poller Nat Nat) Nat :=
  task (.ofSequence (fun k => [.emit [1, 2], .pending].getD k (.finish 3)) fun k => 2 * k)
    { interval := 5, delayFirst := true }

/-- Its first sample starts after one interval, and each other one an interval after the last event
of the sample before, or after its result if it had none. -/
theorem keeps_pace_unhurried :
    ∃ log n, Chronicle unhurried deeds (Net.start { sampler := 0 } 0 false) log n ∧
      log = [(5, .starts), (5, .returns (.emit [1, 2])), (5, .queues 1), (5, .queues 2),
        (10, .starts), (12, .returns .pending), (17, .starts), (21, .returns (.finish 3)),
        (21, .queues 3)] ∧
      n.queue.length ≤ 1 ∧
      ∃ rounds left rest,
        KeepsPace { interval := 5, delayFirst := true } n log rounds left rest := by
  let run : Run unhurried (Net.start { sampler := 0 } 0 false) := .eager unhurried rfl
  have chronicle := run.chronicle deeds_self 18
  obtain ⟨bounded, pace⟩ := keeps_pace _ _ 0 0 false chronicle
  exact ⟨_, _, chronicle, by decide +kernel, bounded, pace⟩

end Poller

end DeployWatch.Watch
