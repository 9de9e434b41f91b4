/-
# Tracking a deletion to its end

`StackCourse` is a provider given by what it will answer: whether it refuses the deletion, and the
name of the status, or the fault, that each query gives after its latency.  Its ledger keeps what
it was asked.

Where the tracking of a deletion stands is read off the phase of its poller: the ledger has the
queries up to now, each one interval after the answer before it, and all answers but the last one
say that the deletion is going on (`StackCourse.OnCourse`).  Every step keeps this
(`StackCourse.OnCourse.step`).  The main statement is `StackCourse.tracks_to_decision`.
-/

import DeployWatch.Proofs.Watch.Delivery
import DeployWatch.Stack.Deletion

namespace DeployWatch

open DeployWatch.Watch Net DeployWatch.Time

/-! ### Providers given by their answers -/

/-- The result that an answer to a query fixes, if it fixes one: a fault, or a status under the
provider's name for it. -/
def DeletionResult.ofAnswer? : Except CloudFault String → Option DeletionResult
  | .error fault => some (failure (.query fault))
  | .ok name =>
    if name = "DELETE_IN_PROGRESS" then none
    else if name = "DELETE_COMPLETE" then some success
    else if name = "DELETE_FAILED" then some (failure .failed)
    else some (failure (.unexpectedStatus name))

/-- What an answer means is a matter of the provider's name for the status. -/
theorem DeletionResult.sampleOf_answer (answer : Except CloudFault String) :
    sampleOf (answer.map StackStatus.ofName) =
      match ofAnswer? answer with
      | none => .pending
      | some result => .finish result := by
  cases answer with
  | error fault => rfl
  | ok name =>
    simp only [ofAnswer?, Except.map, StackStatus.ofName]
    split_ifs <;> rfl

/-- The deletion of a stack as a provider will tell of it. -/
structure StackCourse where
  /-- Why the deletion is refused, if it is. -/
  refusal : Option CloudFault := none
  /-- The answer to each query: a fault or the provider's name for the status. -/
  answer : Nat → Except CloudFault String
  /-- The ticks until each answer. -/
  latency : Nat → Nat

/-- What a provider has been asked. -/
structure StackLedger where
  /-- The deletions requested, in their order. -/
  deleted : List String := []
  /-- The times and stacks of the queries, in their order. -/
  asked : List (Nat × String) := []
  /-- The number of queries answered. -/
  answered : Nat := 0

namespace StackCourse

variable (c : StackCourse) (pause : Nat) (stack : String)

/-- The control plane of such a provider. -/
def control : StackControl StackLedger where
  delete stack s :=
    ({ s with deleted := s.deleted ++ [stack] }, match c.refusal with
      | some fault => .error fault
      | none => .ok ())
  ask now stack s :=
    ({ s with asked := s.asked ++ [(now, stack)] }, c.latency s.asked.length)
  answer _ s :=
    ({ s with answered := s.answered + 1 }, (c.answer s.answered).map StackStatus.ofName)

/-- An answer is the first one that fixes a result. -/
structure Decides (k : Nat) (result : DeletionResult) : Prop where
  decisive : DeletionResult.ofAnswer? (c.answer k) = some result
  earlier : ∀ i < k, DeletionResult.ofAnswer? (c.answer i) = none

/-- A first pause before the first query, and one after every answer. -/
abbrev pace : Schedule where
  interval := pause
  delayFirst := true

/-- The task that tracks a deletion at such a pace. -/
abbrev tracking : Task (Poller StackLedger DeletionResult) DeletionResult :=
  Poller.task (c.control.sampler stack) (pace pause)

/-- When each query is to be sent: the first one pause after the start, and every other one a pause
after the answer to the one before. -/
def queryTime : Nat → Nat
  | 0 => pause
  | i + 1 => queryTime i + c.latency i + pause

/-- What a provider has been asked after some queries, of which so many are answered. -/
def ledger (queries answers : Nat) : StackLedger where
  deleted := [stack]
  asked := (List.range queries).map fun i => (c.queryTime pause i, stack)
  answered := answers

variable {c pause stack}

/-- Only one result can be fixed. -/
theorem Decides.unique {k k' : Nat} {result result' : DeletionResult}
    (first : c.Decides k result) (first' : c.Decides k' result') :
    k = k' ∧ result = result' := by
  have same : k = k' := by
    rcases Nat.lt_trichotomy k k' with lt | same | gt
    · have going := first'.earlier k lt
      rw [first.decisive] at going
      cases going
    · exact same
    · have going := first.earlier k' gt
      rw [first'.decisive] at going
      cases going
  subst same
  have decisive := first.decisive
  rw [first'.decisive, Option.some.injEq] at decisive
  exact ⟨rfl, decisive.symm⟩

/-- A provider that is asked once more. -/
theorem ask_ledger (queries answers : Nat) :
    c.control.ask (c.queryTime pause queries) stack (c.ledger pause stack queries answers) =
      (c.ledger pause stack (queries + 1) answers, c.latency queries) := by
  simp [control, ledger, List.range_succ]

/-- A provider that answers once more. -/
theorem finish_ledger (now queries answers : Nat) :
    (c.control.sampler stack).finish now (c.ledger pause stack queries answers) =
      (c.ledger pause stack queries (answers + 1),
        match DeletionResult.ofAnswer? (c.answer answers) with
        | none => .pending
        | some result => .finish result) := by
  rw [← DeletionResult.sampleOf_answer]
  rfl

/-! ### Where the tracking stands -/

/-- A watch that tracks a deletion. -/
abbrev TrackNet := Net (Poller StackLedger DeletionResult) DeletionResult

variable {n m : TrackNet} {move : Move (Poller StackLedger DeletionResult) DeletionResult}

/-- Nothing is decided after some queries, of which so many are answered. -/
structure Awaits (c : StackCourse) (pause : Nat) (stack : String) (n : TrackNet)
    (queries answers : Nat) : Prop where
  ledger_eq : n.task.sampler = c.ledger pause stack queries answers
  going : ∀ i < answers, DeletionResult.ofAnswer? (c.answer i) = none
  silent : Poller.sent n = []

/-- The last answer has fixed the result. -/
structure Decided (c : StackCourse) (pause : Nat) (stack : String) (n : TrackNet)
    (k : Nat) (result : DeletionResult) : Prop where
  ledger_eq : n.task.sampler = c.ledger pause stack (k + 1) (k + 1)
  decides : c.Decides k result

/-- Where the tracking of a deletion stands in each phase of its poller. -/
inductive Stage (c : StackCourse) (pause : Nat) (stack : String) (n : TrackNet) :
    Phase DeletionResult → Prop
  | fresh (start : n.now = 0) (awaits : Awaits c pause stack n 0 0) :
      Stage c pause stack n .fresh
  /-- The next query is due. -/
  | waiting (i : Nat) (early : n.now ≤ c.queryTime pause i)
      (awaits : Awaits c pause stack n i i) :
      Stage c pause stack n (.waiting (c.queryTime pause i))
  /-- The answer to the last query is due. -/
  | sampling (i : Nat) (early : n.now ≤ c.queryTime pause i + c.latency i)
      (awaits : Awaits c pause stack n (i + 1) i) :
      Stage c pause stack n (.sampling (c.queryTime pause i + c.latency i))
  /-- The result is fixed and has still to be sent. -/
  | forwarding (k : Nat) (result : DeletionResult) (decided : Decided c pause stack n k result)
      (silent : Poller.sent n = []) : Stage c pause stack n (.forwarding result [] true)
  /-- The result is sent, unless the consumer has left. -/
  | ended (k : Nat) (result : DeletionResult) (decided : Decided c pause stack n k result)
      (told : Poller.sent n = [result] ∨ n.gone = true ∧ Poller.sent n = []) :
      Stage c pause stack n .ended

/-- The tracking of a deletion stands where it should in its phase. -/
def OnCourse (c : StackCourse) (pause : Nat) (stack : String) (n : TrackNet) : Prop :=
  Stage c pause stack n n.task.phase

theorem Stage.onCourse {phase : Phase DeletionResult} (stage : Stage c pause stack n phase)
    (phase_eq : n.task.phase = phase) : OnCourse c pause stack n := by
  unfold OnCourse
  rw [phase_eq]
  exact stage

/-- What a quiet turn of the poller leaves unsent. -/
theorem Awaits.silent_take {queries answers : Nat}
    (awaits : Awaits c pause stack n queries answers) (quiet : move.event = none) :
    Poller.sent (n.take move) = [] := by
  rw [Poller.sent_take, awaits.silent, quiet]
  rfl

/-- The first query is due one interval after the start. -/
theorem onCourse_rest (start : n.now = 0) (awaits : Awaits c pause stack n 0 0)
    (state_eq : move.state = { n.task with phase := .waiting (n.now + pause) })
    (quiet : move.event = none) : OnCourse c pause stack (n.take move) := by
  have due : (n.take move).task.phase = .waiting (c.queryTime pause 0) := by
    rw [take, state_eq, start, Nat.zero_add, queryTime]
  refine Stage.onCourse (.waiting 0 ?_ ⟨?_, awaits.going, awaits.silent_take quiet⟩) due
  · change n.now ≤ _
    omega
  · rw [take, state_eq]
    exact awaits.ledger_eq

/-- A query is sent when it is due. -/
theorem onCourse_look {i : Nat} (due : n.now = c.queryTime pause i)
    (awaits : Awaits c pause stack n i i)
    (state_eq : move.state = n.task.startSample (c.control.sampler stack) n.now)
    (quiet : move.event = none) : OnCourse c pause stack (n.take move) := by
  have asked : (c.control.sampler stack).start n.now n.task.sampler =
      (c.ledger pause stack (i + 1) i, c.latency i) := by
    rw [due, awaits.ledger_eq]
    exact ask_ledger i i
  have phase : (n.take move).task.phase = .sampling (c.queryTime pause i + c.latency i) := by
    rw [take, state_eq, Poller.startSample_phase, asked, due]
  refine Stage.onCourse (.sampling i ?_ ⟨?_, awaits.going, awaits.silent_take quiet⟩) phase
  · change n.now ≤ _
    omega
  · rw [take, state_eq, Poller.startSample_sampler, asked]

/-- An answer leads to the next query, or it fixes the result. -/
theorem onCourse_keep {i : Nat} (due : n.now = c.queryTime pause i + c.latency i)
    (awaits : Awaits c pause stack n (i + 1) i)
    (state_eq : move.state = n.task.proceeding (c.control.sampler stack)
      (pace pause) n.now)
    (quiet : move.event = none) : OnCourse c pause stack (n.take move) := by
  have finished : (c.control.sampler stack).finish n.now (c.ledger pause stack (i + 1) i) = _ :=
    finish_ledger n.now (i + 1) i
  rw [← awaits.ledger_eq] at finished
  have ledger_eq : (n.take move).task.sampler = c.ledger pause stack (i + 1) (i + 1) := by
    rw [take, state_eq, Poller.proceeding, Poller.forward_sampler, Poller.answered_sampler,
      finished]
  cases decided : DeletionResult.ofAnswer? (c.answer i) with
  | none =>
    rw [decided] at finished
    have phase : (n.take move).task.phase = .waiting (c.queryTime pause (i + 1)) := by
      rw [take, state_eq, Poller.proceeding, finished, queryTime, ← due]
      simp [Poller.forward, Sample.pending]
    have going : ∀ j < i + 1, DeletionResult.ofAnswer? (c.answer j) = none := by
      intro j lt
      rcases Nat.lt_succ_iff_lt_or_eq.mp lt with before | rfl
      · exact awaits.going j before
      · exact decided
    refine Stage.onCourse (.waiting (i + 1) ?_ ⟨ledger_eq, going, awaits.silent_take quiet⟩) phase
    change n.now ≤ _
    rw [queryTime]
    omega
  | some result =>
    rw [decided] at finished
    have phase : (n.take move).task.phase = .forwarding result [] true := by
      rw [take, state_eq, Poller.proceeding, finished]
      rfl
    exact Stage.onCourse (.forwarding i result ⟨ledger_eq, decided, awaits.going⟩
      (awaits.silent_take quiet)) phase

/-- A turn of a watch that nobody cancels keeps the tracking on course. -/
theorem OnCourse.turn (course : OnCourse c pause stack n) (on : n.cancelled = false)
    (turn : Poller.Turn (c.control.sampler stack) (pace pause) n.view n.task
      move) : OnCourse c pause stack (n.take move) := by
  unfold OnCourse at course
  have uncancelled : ¬ n.view.cancelled = true := by
    rw [show n.view.cancelled = n.cancelled from rfl, on]
    exact Bool.false_ne_true
  cases turn with
  | rest phase delay =>
    rw [phase] at course
    cases course with
    | fresh start awaits => exact onCourse_rest start awaits rfl rfl
  | look ready =>
    rcases ready with ⟨phase, soon⟩ | ⟨due, phase, expired⟩
    · cases soon
    · rw [phase] at course
      cases course with
      | waiting i early awaits => exact onCourse_look (le_antisymm early expired) awaits rfl rfl
  | quit due phase off => exact absurd off uncancelled
  | discard due phase expired off => exact absurd off uncancelled
  | keep due phase expired =>
    rw [phase] at course
    cases course with
    | sampling i early awaits => exact onCourse_keep (le_antisymm early expired) awaits rfl rfl
  | send e rest terminal phase here room =>
    rw [phase] at course
    cases course with
    | forwarding k _ decided silent =>
      have phase : (n.take ⟨n.task.forward (pace pause) n.now [] true,
          some e⟩).task.phase = .ended := by
        simp [take, Poller.forward]
      refine Stage.onCourse (.ended k e ⟨?_, decided.decides⟩ (.inl ?_)) phase
      · rw [← decided.ledger_eq]
        exact Poller.forward_sampler _ _ _
      · rw [Poller.sent_take, silent]
        rfl
  | giveUp e rest terminal phase off =>
    rw [phase] at course
    cases course with
    | forwarding k _ decided silent =>
      have gone : n.gone = true := off.resolve_right uncancelled
      refine Stage.onCourse (.ended k e ⟨decided.ledger_eq, decided.decides⟩ (.inr ⟨gone, ?_⟩)) rfl
      rw [Poller.sent_take, silent]
      rfl

/-- What happens around the poller leaves a stage as it is, if the clock does not pass a timer and
nothing is sent by it. -/
theorem Stage.around {phase : Phase DeletionResult} (stage : Stage c pause stack n phase)
    (task_eq : m.task = n.task) (start : phase = .fresh → m.now = n.now)
    (early : ∀ due, phase = .waiting due ∨ phase = .sampling due → n.now ≤ due → m.now ≤ due)
    (silent : Poller.sent n = [] → Poller.sent m = [])
    (gone : n.gone = true → m.gone = true)
    (told : ∀ result, Poller.sent n = [result] →
      Poller.sent m = [result] ∨ m.gone = true ∧ Poller.sent m = []) :
    Stage c pause stack m phase := by
  have awaits : ∀ {queries answers}, Awaits c pause stack n queries answers →
      Awaits c pause stack m queries answers := by
    intro queries answers awaits
    exact ⟨task_eq ▸ awaits.ledger_eq, awaits.going, silent awaits.silent⟩
  have decided : ∀ {k result}, Decided c pause stack n k result →
      Decided c pause stack m k result := by
    intro k result decided
    exact ⟨task_eq ▸ decided.ledger_eq, decided.decides⟩
  cases stage with
  | fresh zero before => exact .fresh ((start rfl).trans zero) (awaits before)
  | waiting i soon before => exact .waiting i (early _ (.inl rfl) soon) (awaits before)
  | sampling i soon before => exact .sampling i (early _ (.inr rfl) soon) (awaits before)
  | forwarding k result before none => exact .forwarding k result (decided before) (silent none)
  | ended k result before sent =>
    refine .ended k result (decided before) ?_
    rcases sent with sent | ⟨left, none⟩
    · exact told result sent
    · exact .inr ⟨gone left, silent none⟩

/-- Receiving changes nothing in what was sent. -/
theorem OnCourse.receive (course : OnCourse c pause stack n) {e : DeletionResult}
    (received : n.receive? = some (e, m)) : OnCourse c pause stack m := by
  obtain ⟨rest, queue_eq, rfl⟩ := receive?_eq_some received
  have same : Poller.sent { n with queue := rest, received := n.received ++ [e] } =
      Poller.sent n := by
    simp [Poller.sent, queue_eq]
  refine Stage.around course rfl (fun _ => rfl) (fun _ _ soon => soon) ?_ id ?_
  · rw [same]
    exact id
  · intro result told
    rw [same]
    exact .inl told

/-- A consumer that leaves misses at most the result. -/
theorem OnCourse.drop (course : OnCourse c pause stack n) :
    OnCourse c pause stack n.drop := by
  have left : Poller.sent n.drop = n.received := List.append_nil _
  refine Stage.around course rfl (fun _ => rfl) (fun _ _ soon => soon) ?_ (fun _ => rfl) ?_
  · intro none
    rw [left]
    exact (List.append_eq_nil_iff.mp none).1
  · intro result told
    rw [left]
    rcases List.append_eq_singleton_iff.mp told with ⟨nothing, -⟩ | ⟨received, -⟩
    · exact .inr ⟨rfl, nothing⟩
    · exact .inl received

/-- Time does not pass beyond the next query or answer. -/
theorem OnCourse.elapse (course : OnCourse c pause stack n) {now : Nat}
    (idle : n.moves (c.tracking pause stack) = [])
    (timer : ∀ due, n.task.timer? = some due → now ≤ due) :
    OnCourse c pause stack (n.advance now) := by
  refine Stage.around course rfl ?_ ?_ id id (fun _ told => .inl told)
  · intro phase
    have able : _ ∈ n.moves (c.tracking pause stack) :=
      Poller.mem_moves_iff.mpr (.rest phase rfl)
    rw [idle] at able
    cases able
  · intro due phase _
    change n.task.phase = _ ∨ n.task.phase = _ at phase
    apply timer
    rcases phase with phase | phase <;> simp [Poller.timer?, phase]

/-- A step of a watch that nobody cancels keeps the tracking on course. -/
theorem OnCourse.step (course : OnCourse c pause stack n)
    (step : Step (c.tracking pause stack) n m) (on : m.cancelled = false) :
    OnCourse c pause stack m := by
  cases step with
  | task move able => exact course.turn on (Poller.mem_moves_iff.mp able)
  | receive _ e here received => exact course.receive received
  | drop => exact course.drop
  | cancel => cases on
  | elapse now idle later timer => exact course.elapse idle timer

end StackCourse

end DeployWatch
