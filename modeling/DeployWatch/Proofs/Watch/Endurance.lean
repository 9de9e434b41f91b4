/-
# A poller goes on until it ends

In a run that starves nobody a poller takes as many samples as one likes, or it comes to its end.
With a consumer that drains the queue this is `Poller.takes_more_samples`; without one, once it
has left, it is `Poller.takes_more_samples_alone`.  Both follow the weight of the phase down to
the next sample.

What a draining consumer is sent it also receives, however long the poller goes on
(`Poller.exists_received`): as long as something is queued or held, an event will be received.
-/

import DeployWatch.Proofs.Watch.Delivery

namespace DeployWatch.Watch.Poller

open Net

variable {σ ε : Type} {sampler : Sampler σ ε} {schedule : Schedule} {s : σ} {p : Poller σ ε}
  {a b n : Net (Poller σ ε) ε}

/-! ### Samples stay in the record -/

theorem samples_prefix_of_turn (tracks : Tracks sampler s p) {v : View}
    {move : Move (Poller σ ε) ε} (turn : Turn sampler schedule v p move) :
    p.samples <+: move.state.samples := by
  cases turn with
  | rest | quit | giveUp => exact List.prefix_refl _
  | look | send => simp
  | discard due phase =>
    change p.samples <+: (p.answered sampler v.now).samples
    rw [tracks.answered_samples phase]
    exact List.prefix_append _ _
  | keep due phase =>
    rw [proceeding, forward_samples, tracks.answered_samples phase]
    exact List.prefix_append _ _

theorem samples_prefix_of_steps (run : Steps (task sampler schedule) a b)
    (tracks : Tracks sampler s a.task) : a.task.samples <+: b.task.samples := by
  induction run with
  | refl => exact List.prefix_refl _
  | @tail b c before step ih =>
    rcases step.task_eq_or_take with same | ⟨move, hm, rfl⟩
    · rw [same]
      exact ih
    · exact ih.trans (samples_prefix_of_turn (tracks_of_steps before tracks) (mem_moves_iff.mp hm))

/-- A turn that ends a sample in flight puts it into the record. -/
theorem length_samples_of_sampling (tracks : Tracks sampler s p) {due : Nat}
    (phase : p.phase = .sampling due) {v : View} {move : Move (Poller σ ε) ε}
    (turn : Turn sampler schedule v p move) :
    move.state.samples.length = p.samples.length + 1 := by
  have one_more : (p.answered sampler v.now).samples.length = p.samples.length + 1 := by
    rw [tracks.answered_samples phase, List.length_append, List.length_singleton]
  rcases turn.of_sampling phase with ⟨-, rfl⟩ | ⟨-, rfl⟩
  · exact one_more
  · rw [proceeding, forward_samples]
    exact one_more

section Runs

variable {run : Run (task sampler schedule) n} (tracks : Tracks sampler s n.task)
include tracks

theorem samples_prefix_of_le {i j : Nat} (le : i ≤ j) :
    (run.state i).task.samples <+: (run.state j).task.samples := by
  induction j, le using Nat.le_induction with
  | base => exact List.prefix_refl _
  | succ j _ ih =>
    rcases run.next j with same | step
    · rw [same]
      exact ih
    · exact ih.trans (samples_prefix_of_steps step.steps (tracks_of_steps (run.steps j) tracks))

/-! ### With a consumer that drains the queue -/

/-- A poller whose consumer drains the queue ends, or it takes another sample. -/
theorem takes_more_samples (fair : run.Draining) (steady : run.Steady) (room : 0 < n.capacity)
    (i : Nat) : ∃ j ≥ i, (run.state j).isClosed (task sampler schedule) = true ∨
      (run.state i).task.samples.length < (run.state j).task.samples.length := by
  -- down the load to the next sample
  induction hl : load (run.state i) using Nat.strong_induction_on generalizing i with
  | _ k ih =>
    cases opened : (run.state i).isClosed (task sampler schedule) with
    | true => exact ⟨i, le_rfl, .inl opened⟩
    | false =>
      obtain ⟨j, le, ahead⟩ := fair.exists_progress steady (responsive _ _) room opened
      by_cases lower : load (run.state (j + 1)) < load (run.state i)
      · obtain ⟨l, later, goal⟩ := ih _ (hl ▸ lower) (j + 1) rfl
        have grown : (run.state i).task.samples.length ≤ (run.state (j + 1)).task.samples.length :=
          (samples_prefix_of_le tracks (by omega)).length_le
        exact ⟨l, by omega, goal.imp_right fun more => by omega⟩
      · -- only taking over a sample does not lower the load
        have flying : ∃ due, (run.state i).task.phase = .sampling due := by
          by_contra none
          exact lower (load_lt ahead (.inr fun due phase => none ⟨due, phase⟩))
        obtain ⟨due, phase⟩ := flying
        refine ⟨j + 1, by omega, .inr ?_⟩
        rcases ahead_cases ahead with ⟨now, move, turn, next⟩ | ⟨now, e, rest, queue, next⟩
        · have one_more := length_samples_of_sampling (tracks_of_steps (run.steps i) tracks) phase turn
          rw [next]
          change _ < move.state.samples.length
          omega
        · refine absurd ?_ lower
          simp [next, load, advance, queue]

/-! ### Without a consumer -/

omit tracks in
/-- A poller whose consumer has left can take a step, unless it waits for a timer. -/
theorem moves_ne_nil_of_gone {m : Net (Poller σ ε) ε} (alive : m.task.phase ≠ .ended)
    (gone : m.gone = true) (expired : ∀ due, m.task.timer? = some due → due ≤ m.now) :
    m.moves (task sampler schedule) ≠ [] := by
  cases phase : m.task.phase with
  | fresh => exact moves_ne_nil_of_fresh phase
  | waiting due =>
    have past := expired due (by simp [timer?, phase])
    exact moves_ne_nil (.look (.inr ⟨due, phase, past⟩))
  | sampling due =>
    have past := expired due (by simp [timer?, phase])
    cases off : m.cancelled with
    | true => exact moves_ne_nil (.discard due phase past off)
    | false => exact moves_ne_nil (.keep due phase past off)
  | forwarding e rest terminal => exact moves_ne_nil (.giveUp e rest terminal phase (.inl gone))
  | ended => exact absurd phase alive

/-- A poller whose consumer has left ends, or it takes another sample. -/
theorem takes_more_samples_alone (fair : run.Deserted) {i : Nat}
    (gone : (run.state i).gone = true) :
    ∃ j ≥ i, (run.state j).task.phase = .ended ∨
      (run.state i).task.samples.length < (run.state j).task.samples.length := by
  -- down the weight to the next sample
  induction hw : (run.state i).task.phase.weight using Nat.strong_induction_on generalizing i with
  | _ k ih =>
    by_cases ended : (run.state i).task.phase = .ended
    · exact ⟨i, le_rfl, .inl ended⟩
    · obtain ⟨j, le, same, move, hm, next⟩ := fair.exists_works gone fun m task_eq gone expired =>
        moves_ne_nil_of_gone (by rw [task_eq]; exact ended) gone expired
      have turn := mem_moves_iff.mp hm
      by_cases flying : ∃ due, (run.state j).task.phase = .sampling due
      · obtain ⟨due, phase⟩ := flying
        have one_more := length_samples_of_sampling (tracks_of_steps (run.steps j) tracks) phase turn
        refine ⟨j + 1, by omega, .inr ?_⟩
        rw [next, ← same]
        change _ < move.state.samples.length
        omega
      · have lower := weight_lt turn (.inr fun due phase => flying ⟨due, phase⟩)
        have less : (run.state (j + 1)).task.phase.weight < k := by
          rw [next, ← hw, ← same]
          exact lt_of_le_of_lt (Nat.le_add_right _ _) lower
        obtain ⟨l, later, goal⟩ := ih _ less (Run.gone_from (by omega) gone) rfl
        have grown : (run.state i).task.samples.length ≤ (run.state (j + 1)).task.samples.length :=
          (samples_prefix_of_le tracks (by omega)).length_le
        exact ⟨l, by omega, goal.imp_right fun more => by omega⟩

end Runs

/-! ### Everything sent is received -/

section Received

variable {run : Run (task sampler schedule) n} (fair : run.Draining)
  (on : ∀ i, (run.state i).cancelled = false) (room : 0 < n.capacity)
include fair

/-- A queue that is not empty stays so until something is received. -/
theorem exists_receives_of_queue {i : Nat} (some : (run.state i).queue ≠ []) :
    ∃ j ≥ i, Receives (run.state j) (run.state (j + 1)) := by
  by_contra none
  have unread : ∀ j ≥ i, (run.state j).queue ≠ [] := by
    intro j le
    induction j, le using Nat.le_induction with
    | base => exact some
    | succ j le ih =>
      rcases run.next j with same | step
      · rw [same]
        exact ih
      · have here := fair.attached (j + 1)
        have unreceived : ¬ Receives (run.state j) (run.state (j + 1)) := fun h => none ⟨j, le, h⟩
        generalize run.state (j + 1) = c at step here unreceived
        cases step with
        | task move => simp [take, ih]
        | receive _ e _ h => exact absurd ⟨e, h⟩ unreceived
        | drop => cases here
        | cancel | elapse => exact ih
  exact none (fair.receives i unread)

include on room

/-- A poller that holds events gets one into the queue. -/
theorem exists_queue_ne_nil {i : Nat} (held : (run.state i).task.phase.held ≠ []) :
    ∃ j ≥ i, (run.state j).queue ≠ [] := by
  by_contra none
  have empty : ∀ j ≥ i, (run.state j).queue = [] := by
    intro j le
    by_contra some
    exact none ⟨j, le, some⟩
  obtain ⟨e, rest, terminal, phase⟩ :
      ∃ e rest terminal, (run.state i).task.phase = .forwarding e rest terminal := by
    cases phase : (run.state i).task.phase with
    | forwarding e rest terminal => exact ⟨e, rest, terminal, rfl⟩
    | fresh | waiting | sampling | ended => simp [phase] at held
  have some : ∃ j ≥ i, Works (task sampler schedule) (run.state j) (run.state (j + 1)) := by
    by_contra stuck
    refine stuck (fair.works i ?_)
    intro j le
    have same : (run.state j).task = (run.state i).task :=
      Run.task_eq_of_not_works le fun k from_i _ works => stuck ⟨k, from_i, works⟩
    refine moves_ne_nil (.send e rest terminal (same ▸ phase) (fair.attached j) ?_)
    have capacity : 0 < (run.state j).capacity := by
      rw [run.capacity_eq]
      exact room
    simpa [view, empty j le] using capacity
  obtain ⟨j, le, same, move, hm, next⟩ := Run.exists_first_works some
  -- the only step of a poller that holds events is to send the first one
  have phase : (run.state j).task.phase = .forwarding e rest terminal := same ▸ phase
  have sent : move.event = Option.some e := by
    rcases (mem_moves_iff.mp hm).of_forwarding phase with ⟨-, rfl⟩ | ⟨gone | off, -⟩
    · rfl
    · rw [show (run.state j).view.gone = (run.state j).gone from rfl, fair.attached j] at gone
      cases gone
    · rw [show (run.state j).view.cancelled = (run.state j).cancelled from rfl, on j] at off
      cases off
  have full := empty (j + 1) (by omega)
  rw [next] at full
  simp [take, sent] at full

/-- As long as something is queued or held, something will be received. -/
theorem exists_receives {i : Nat}
    (some : (run.state i).received.length < (accounted (run.state i)).length) :
    ∃ j ≥ i, Receives (run.state j) (run.state (j + 1)) := by
  by_cases queued : (run.state i).queue = []
  · have held : (run.state i).task.phase.held ≠ [] := by
      intro none
      simp [accounted, sent, queued, none] at some
    obtain ⟨j, le, queued⟩ := exists_queue_ne_nil fair on room held
    obtain ⟨l, later, receives⟩ := exists_receives_of_queue fair queued
    exact ⟨l, by omega, receives⟩
  · exact exists_receives_of_queue fair queued

omit room in
/-- While nobody cancels, the account of a watch only grows. -/
theorem accounted_grows (tracks : Tracks sampler s n.task) {i j : Nat} (le : i ≤ j) :
    accounted (run.state i) <+: accounted (run.state j) := by
  induction j, le using Nat.le_induction with
  | base => exact List.prefix_refl _
  | succ j le ih =>
    rcases run.next j with same | step
    · rw [same]
      exact ih
    · refine ih.trans ?_
      have tracks := tracks_of_steps (run.steps j) tracks
      cases posting_of_step tracks step (fair.attached (j + 1)) with
      | same accounted_eq =>
        rw [accounted_eq]
      | gained _ events accounted_eq =>
        rw [accounted_eq]
        exact List.prefix_append _ _
      | lost off =>
        rw [on j] at off
        cases off

/-- **A draining consumer receives everything** that has ever been queued or held. -/
theorem exists_received (tracks : Tracks sampler s n.task) (i : Nat) :
    ∃ j ≥ i, accounted (run.state i) <+: (run.state j).received := by
  have again : ∀ j ≥ i, ∃ l ≥ j,
      (accounted (run.state i)).length ≤ (run.state l).received.length ∨
        (run.state j).received.length < (run.state l).received.length := by
    intro j le
    by_cases enough : (accounted (run.state i)).length ≤ (run.state j).received.length
    · exact ⟨j, le_rfl, .inl enough⟩
    · have grown := (accounted_grows fair on tracks le).length_le
      obtain ⟨l, later, e, received⟩ := exists_receives fair on room (i := j) (by omega)
      have kept := (run.received_prefix later).length_le
      obtain ⟨rest, -, next⟩ := receive?_eq_some received
      refine ⟨l + 1, by omega, .inr ?_⟩
      rw [next]
      simp only [List.length_append, List.length_singleton]
      omega
  obtain ⟨j, le, enough⟩ : ∃ j ≥ i,
      (accounted (run.state i)).length ≤ (run.state j).received.length := by
    obtain ⟨j, le, enough⟩ := Run.exists_or_ge (f := fun m => m.received.length)
      (P := fun m => (accounted (run.state i)).length ≤ m.received.length) again
      (accounted (run.state i)).length
    exact ⟨j, le, enough.elim id id⟩
  have within := received_prefix_accounted (run.state j)
  exact ⟨j, le, List.prefix_of_prefix_length_le (accounted_grows fair on tracks le) within enough⟩

end Received

end DeployWatch.Watch.Poller
