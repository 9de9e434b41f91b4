/-
# A poller delivers in order and completely

What a poller has sampled, what is queued and what has been received are tied together by one
account: the received events, the queued ones and those that the poller holds, in this order
(`Poller.accounted`).  A step leaves the account as it is, adds the events of a new sample at its
end, or, once the watch is cancelled, cuts something off its end (`Poller.Posting`).  So while
the watch is neither cancelled nor left alone the account is all that was sampled
(`Poller.accounted_eq_emitted`), and what has been received is always a part from its beginning.

The main statement is `Poller.delivers_in_order_and_completely`.  Its second half is about
draining runs: the queue reads closed in the end because every turn but the taking over of a
sample lowers the load of the poller (`Poller.load_lt`), and the sampler cannot put off its
terminal sample for ever (`Poller.acc_of_ends`).
-/

import Mathlib.Data.List.Infix
import DeployWatch.Proofs.Watch.Turns

namespace DeployWatch.Watch.Poller

open Net

variable {σ ε : Type} {sampler : Sampler σ ε} {schedule : Schedule} {s : σ}
  {a b n m : Net (Poller σ ε) ε}

/-! ### The account of a watch -/

/-- The events that have got into the queue, as long as the consumer is there. -/
def sent (n : Net (Poller σ ε) ε) : List ε := n.received ++ n.queue

/-- All events that are received, queued or held, in their order. -/
def accounted (n : Net (Poller σ ε) ε) : List ε := sent n ++ n.task.phase.held

/-- What a step does to the account and to what has been sampled. -/
inductive Posting (a b : Net (Poller σ ε) ε) : Prop
  | same (accounted_eq : accounted b = accounted a) (emitted_eq : b.task.emitted = a.task.emitted)
  /-- The events of a sample are taken over. -/
  | gained (on : a.cancelled = false) (events : List ε)
      (accounted_eq : accounted b = accounted a ++ events)
      (emitted_eq : b.task.emitted = a.task.emitted ++ events)
  /-- A cancelled poller gives up what it holds. -/
  | lost (off : a.cancelled = true) (accounted_cut : accounted b <+: accounted a)
      (emitted_grown : a.task.emitted <+: b.task.emitted)

theorem sent_take (n : Net (Poller σ ε) ε) (move : Move (Poller σ ε) ε) :
    sent (n.take move) = sent n ++ move.event.toList := by
  simp [sent, take]

theorem accounted_take (n : Net (Poller σ ε) ε) (move : Move (Poller σ ε) ε) :
    accounted (n.take move) = sent n ++ (move.event.toList ++ move.state.phase.held) := by
  rw [accounted, sent_take, List.append_assoc]
  rfl

/-- What has been received stands first in the account. -/
theorem received_prefix_accounted (n : Net (Poller σ ε) ε) : n.received <+: accounted n := by
  rw [accounted, sent, List.append_assoc]
  exact List.prefix_append _ _

/-- A turn of a poller whose consumer is there. -/
theorem posting_of_turn (tracks : Tracks sampler s n.task) (here : n.gone = false)
    {move : Move (Poller σ ε) ε} (turn : Turn sampler schedule n.view n.task move) :
    Posting n (n.take move) := by
  cases turn with
  | rest phase delay => exact .same (by rw [accounted_take, accounted]; simp [phase]) rfl
  | look ready =>
    refine .same ?_ (by simp [take])
    rcases ready with ⟨phase, -⟩ | ⟨_, phase, -⟩ <;>
      (rw [accounted_take, accounted]; simp [phase])
  | quit due phase off =>
    exact .lost off (by rw [accounted_take, accounted]; simp [phase]) (by simp [take])
  | discard due phase expired off =>
    refine .lost off (by rw [accounted_take, accounted]; simp [phase]) ?_
    simp [take, tracks.answered_emitted phase]
  | keep due phase expired on =>
    refine .gained on (sampler.finish n.view.now n.task.sampler).2.events ?_ ?_
    · rw [accounted_take, accounted]; simp [phase, proceeding]
    · simp [take, proceeding, tracks.answered_emitted phase]
  | send e rest terminal phase _ room =>
    exact .same (by rw [accounted_take, accounted]; simp [phase]) (by simp [take])
  | giveUp e rest terminal phase off =>
    have off : n.cancelled = true := by
      rcases off with gone | off
      · rw [show n.view.gone = n.gone from rfl, here] at gone; cases gone
      · exact off
    exact .lost off (by rw [accounted_take, accounted]; simp [phase]) (by simp [take])

/-- A step of a watch that its consumer has not left. -/
theorem posting_of_step (tracks : Tracks sampler s a.task)
    (step : Step (task sampler schedule) a b) (here : b.gone = false) : Posting a b := by
  cases step with
  | task move hm => exact posting_of_turn tracks here (mem_moves_iff.mp hm)
  | receive _ e _ h =>
    obtain ⟨rest, hq, rfl⟩ := receive?_eq_some h
    exact .same (by simp [accounted, sent, hq]) rfl
  | drop => cases here
  | cancel => exact .same rfl rfl
  | elapse => exact .same rfl rfl

/-- What got into the queue stays there or is received. -/
theorem sent_prefix_of_step (step : Step (task sampler schedule) a b) (here : b.gone = false) :
    sent a <+: sent b := by
  cases step with
  | task move hm => rw [sent_take]; exact List.prefix_append _ _
  | receive _ e _ h =>
    obtain ⟨rest, hq, rfl⟩ := receive?_eq_some h
    simp [sent, hq]
  | drop => cases here
  | cancel | elapse => exact List.prefix_refl _

/-- What has been sampled stays sampled. -/
theorem emitted_prefix_of_step (tracks : Tracks sampler s a.task)
    (step : Step (task sampler schedule) a b) : a.task.emitted <+: b.task.emitted := by
  rcases step.task_eq_or_take with same | ⟨move, hm, rfl⟩
  · rw [same]
  · cases mem_moves_iff.mp hm with
    | discard due phase expired off => simp [take, tracks.answered_emitted phase]
    | keep due phase expired on => simp [take, proceeding, tracks.answered_emitted phase]
    | rest => exact List.prefix_refl _
    | look | quit | send | giveUp => simp [take]

/-! ### What holds in every state of a run -/

/-- While the watch is neither cancelled nor left alone, all that was sampled is accounted for. -/
theorem accounted_eq_emitted (run : Steps (task sampler schedule) a b)
    (tracks : Tracks sampler s a.task) (start : accounted a = a.task.emitted)
    (here : b.gone = false) (on : b.cancelled = false) : accounted b = b.task.emitted := by
  induction run with
  | refl => exact start
  | @tail b c before step ih =>
    have b_here := step.attached here
    have b_on := step.steps.uncancelled on
    have ih := ih b_here b_on
    cases posting_of_step (tracks_of_steps before tracks) step here with
    | same accounted_eq emitted_eq => rw [accounted_eq, emitted_eq, ih]
    | gained _ events accounted_eq emitted_eq => rw [accounted_eq, emitted_eq, ih]
    | lost off => rw [b_on] at off; cases off

/-- What is accounted for is a part of what was sampled, from its beginning. -/
theorem accounted_prefix_emitted (run : Steps (task sampler schedule) a b)
    (tracks : Tracks sampler s a.task) (start : accounted a = a.task.emitted)
    (here : b.gone = false) : accounted b <+: b.task.emitted := by
  induction run with
  | refl => rw [start]
  | @tail b c before step ih =>
    have b_here := step.attached here
    cases posting_of_step (tracks_of_steps before tracks) step here with
    | same accounted_eq emitted_eq => rw [accounted_eq, emitted_eq]; exact ih b_here
    | gained on events accounted_eq emitted_eq =>
      -- new events are taken over only while nothing has been given up
      rw [accounted_eq, emitted_eq, accounted_eq_emitted before tracks start b_here on]
    | lost _ accounted_cut emitted_grown =>
      exact accounted_cut.trans ((ih b_here).trans emitted_grown)

/-- What has been received is a part of what was sampled, from its beginning. -/
theorem received_prefix_emitted (run : Steps (task sampler schedule) a b)
    (tracks : Tracks sampler s a.task) (start : accounted a = a.task.emitted) :
    b.received <+: b.task.emitted := by
  induction run with
  | refl =>
    rw [← start]
    exact received_prefix_accounted a
  | @tail b c before step ih =>
    have tracks' := tracks_of_steps before tracks
    cases here : c.gone with
    | false =>
      have within := accounted_prefix_emitted (before.tail step) tracks start here
      exact (received_prefix_accounted c).trans within
    | true =>
      rw [step.received_eq_of_gone here]
      exact ih.trans (emitted_prefix_of_step tracks' step)

/-! ### Where a poller stands in its samples -/

/-- Only the last sample is terminal, and only when the poller takes no other. -/
def Course (p : Poller σ ε) : Prop :=
  if p.phase.isLast then
    ∃ before last, p.samples = before ++ [last] ∧ (∀ x ∈ before, x.terminal = false) ∧
      last.terminal = true
  else ∀ x ∈ p.samples, x.terminal = false

/-- The turns of a watch that is neither cancelled nor left alone keep the course. -/
theorem course_of_turn {p : Poller σ ε} {v : View} {move : Move (Poller σ ε) ε}
    (tracks : Tracks sampler s p) (on : v.cancelled = false) (here : v.gone = false)
    (turn : Turn sampler schedule v p move) (course : Course p) : Course move.state := by
  unfold Course at course
  cases turn with
  | rest phase delay => simpa [Course, phase] using course
  | look ready =>
    rcases ready with ⟨phase, -⟩ | ⟨_, phase, -⟩ <;> simpa [Course, phase] using course
  | quit due phase off => rw [on] at off; cases off
  | discard due phase expired off => rw [on] at off; cases off
  | keep due phase expired =>
    simp only [phase, Phase.isLast_sampling, Bool.false_eq_true, if_false] at course
    unfold Course proceeding
    rw [forward_isLast, forward_samples, tracks.answered_samples phase]
    split
    · next terminal => exact ⟨p.samples, _, rfl, course, terminal⟩
    · next terminal =>
      intro x hx
      rcases List.mem_append.mp hx with hx | hx
      · exact course x hx
      · obtain rfl := List.mem_singleton.mp hx
        simpa using terminal
  | send e rest terminal phase _ room =>
    unfold Course
    rw [forward_isLast, forward_samples]
    simpa [phase] using course
  | giveUp e rest terminal phase off => simp [on, here] at off

/-- The course holds while the watch is neither cancelled nor left alone. -/
theorem course_of_steps (run : Steps (task sampler schedule) a b)
    (tracks : Tracks sampler s a.task) (course : Course a.task)
    (here : b.gone = false) (on : b.cancelled = false) : Course b.task := by
  induction run with
  | refl => exact course
  | @tail b c before step ih =>
    have b_here := step.attached here
    have b_on := step.steps.uncancelled on
    have ih := ih b_here b_on
    rcases step.task_eq_or_take with same | ⟨move, hm, rfl⟩
    · rw [same]; exact ih
    · exact course_of_turn (tracks_of_steps before tracks) b_on b_here (mem_moves_iff.mp hm) ih

/-! ### The task and the consumer cannot go on for ever -/

/-- What the poller and the consumer have still to do before the next sample. -/
def load (n : Net (Poller σ ε) ε) : Nat := n.task.phase.weight + n.queue.length

/-- A turn that does not take over a sample lowers the weight by more than it queues. -/
theorem weight_lt {p : Poller σ ε} {v : View} {move : Move (Poller σ ε) ε}
    (turn : Turn sampler schedule v p move)
    (h : v.cancelled = true ∨ ∀ due, p.phase ≠ .sampling due) :
    move.state.phase.weight + move.event.toList.length < p.phase.weight := by
  cases turn with
  | rest phase delay => simp [phase]
  | look ready =>
    rcases ready with ⟨phase, -⟩ | ⟨_, phase, -⟩ <;> simp [phase]
  | quit due phase off => simp [phase]
  | discard due phase expired off => simp [phase]
  | keep due phase expired on =>
    rcases h with off | none
    · rw [on] at off; cases off
    · exact absurd phase (none due)
  | send e rest terminal phase here room =>
    have : (p.forward schedule v.now rest terminal).phase.weight ≤ 2 * rest.length + 2 :=
      forward_weight_le v.now rest terminal
    simp only [phase, Phase.weight_forwarding, Option.toList_some, List.length_singleton]
    omega
  | giveUp e rest terminal phase off => simp [phase]

/-- Progress, perhaps after a while, is a turn of the poller or the receiving of an event. -/
theorem ahead_cases (ahead : Ahead (task sampler schedule) m n) :
    (∃ now move, Turn sampler schedule (n.advance now).view n.task move ∧
      m = (n.advance now).take move) ∨
    ∃ now e rest, n.queue = e :: rest ∧
      m = { n.advance now with queue := rest, received := n.received ++ [e] } := by
  obtain ⟨_, ⟨now, -, rfl⟩, ⟨move, hm, rfl⟩ | ⟨e, h⟩⟩ := ahead
  · exact .inl ⟨now, move, mem_moves_iff.mp hm, rfl⟩
  · obtain ⟨rest, hq, rfl⟩ := receive?_eq_some h
    exact .inr ⟨now, e, rest, hq, rfl⟩

/-- Progress lowers the load, unless it takes over a sample. -/
theorem load_lt (ahead : Ahead (task sampler schedule) m n)
    (h : n.cancelled = true ∨ ∀ due, n.task.phase ≠ .sampling due) : load m < load n := by
  rcases ahead_cases ahead with ⟨now, move, turn, rfl⟩ | ⟨now, e, rest, hq, rfl⟩
  · have := weight_lt turn h
    simp only [load, take, advance, List.length_append]
    omega
  · simp [load, advance, hq]

theorem phase_ne_sampling_of_isLast {p : Poller σ ε} (last : p.phase.isLast = true) :
    ∀ due, p.phase ≠ .sampling due := by
  intro due phase
  simp [phase] at last

/-- A poller that will not take another sample comes to its end. -/
theorem acc_of_isLast (last : n.task.phase.isLast = true) :
    Acc (Ahead (task sampler schedule)) n := by
  refine acc_of_measure (P := fun n => n.task.phase.isLast = true) load ?_ last
  intro n m last ahead
  refine ⟨?_, load_lt ahead (.inr (phase_ne_sampling_of_isLast last))⟩
  rcases ahead_cases ahead with ⟨now, move, turn, rfl⟩ | ⟨now, e, rest, hq, rfl⟩
  · cases turn with
    | quit | discard | giveUp => rfl
    | send e rest terminal phase here room => simpa [take, phase] using last
    | rest phase | keep due phase => simp [phase] at last
    | look ready =>
      rcases ready with ⟨phase, -⟩ | ⟨_, phase, -⟩ <;> simp [phase] at last
  · exact last

/-- A poller with a sample in flight comes to its end, if it does so after the sample. -/
theorem acc_of_sampling {due : Nat} (phase : n.task.phase = .sampling due)
    (after : ∀ (m : Net (Poller σ ε) ε) now, m.task = n.task.proceeding sampler schedule now →
      Acc (Ahead (task sampler schedule)) m) :
    Acc (Ahead (task sampler schedule)) n := by
  -- until the sample is answered the consumer can only empty the queue
  induction hq : n.queue.length using Nat.strong_induction_on generalizing n with
  | _ k ih =>
    refine Acc.intro n fun m ahead => ?_
    rcases ahead_cases ahead with ⟨now, move, turn, rfl⟩ | ⟨now, e, rest, received, rfl⟩
    · cases turn with
      | discard => exact acc_of_isLast rfl
      | keep => exact after _ now rfl
      | rest h | quit _ h | send _ _ _ h | giveUp _ _ _ h => rw [phase] at h; cases h
      | look ready =>
        rcases ready with ⟨h, -⟩ | ⟨_, h, -⟩ <;> (rw [phase] at h; cases h)
    · have fewer : rest.length < k := by simp [← hq, received]
      exact ih _ fewer phase after rfl

/-- A poller whose sampler cannot go on for ever comes to its end. -/
theorem acc_of_ends (ends : sampler.Ends s) (at_s : n.task.sampler = s)
    (between : ∀ due, n.task.phase ≠ .sampling due) :
    Acc (Ahead (task sampler schedule)) n := by
  induction ends generalizing n with
  | @intro s _ again =>
    -- within the cycle the load goes down
    induction hl : load n using Nat.strong_induction_on generalizing n with
    | _ k ih =>
      refine Acc.intro n fun m ahead => ?_
      have lower := load_lt ahead (.inr between)
      rcases ahead_cases ahead with ⟨now, move, turn, rfl⟩ | ⟨now, e, rest, received, rfl⟩
      · cases turn with
        | rest => exact ih _ (hl ▸ lower) at_s (by simp [take]) rfl
        | send e rest terminal =>
          exact ih _ (hl ▸ lower) (by simpa [take] using at_s)
            (forward_phase_ne_sampling _ _ _) rfl
        | quit | giveUp => exact acc_of_isLast rfl
        | discard due phase | keep due phase => exact absurd phase (between due)
        | look =>
          refine acc_of_sampling rfl fun m answered hm => ?_
          -- the sample either is terminal or leads to a sampler nearer to its end
          cases terminal : (sampler.call now answered s).2.terminal with
          | true =>
            refine acc_of_isLast ?_
            rw [hm, proceeding, forward_isLast, ← terminal]
            simp [Sampler.call, take, advance, view, at_s]
          | false =>
            refine again now answered terminal ?_ fun due => ?_
            · rw [hm, proceeding, forward_sampler, answered_sampler]
              simp [Sampler.call, take, advance, view, at_s]
            · rw [hm, proceeding]
              exact forward_phase_ne_sampling _ _ _ due
      · exact ih _ (hl ▸ lower) at_s between rfl

/-! ### Delivery -/

theorem accounted_start (s : σ) (capacity : Nat) (cancelled : Bool) :
    accounted (Net.start ({ sampler := s } : Poller σ ε) capacity cancelled) = [] := rfl

theorem course_start (s : σ) : Course ({ sampler := s } : Poller σ ε) := by
  simp [Course, samples]

/-- A draining watch that nobody cancels comes to a state in which the queue reads closed, and
then all events up to the terminal sample have been received. -/
theorem exists_all_received (ends : sampler.Ends s) {capacity : Nat}
    {run : Run (task sampler schedule)
      (Net.start ({ sampler := s } : Poller σ ε) capacity false)}
    (fair : run.Draining) (steady : run.Steady) :
    ∃ samples last s' i, sampler.Yields s (samples ++ [last]) s' ∧
      (∀ x ∈ samples, x.terminal = false) ∧ last.terminal = true ∧
      ∀ j ≥ i, (run.state j).received = (samples ++ [last]).flatMap Sample.events ∧
        (run.state j).isClosed (task sampler schedule) = true ∧
        (run.state j).task.startTimes.length = samples.length + 1 := by
  have resp := responsive sampler schedule
  obtain ⟨i, closed⟩ := fair.exists_isClosed steady resp (start_capacity_pos _ _ _)
    (acc_of_ends ends rfl (by simp [Net.start]))
  -- in the state in which the queue reads closed nothing is queued or held
  have steps := run.steps i
  have tracks := tracks_of_steps steps (Tracks.fresh sampler s)
  have all := accounted_eq_emitted steps (Tracks.fresh sampler s) (accounted_start s _ _)
    (fair.attached i) (steady i)
  have course := course_of_steps steps (Tracks.fresh sampler s) (course_start s)
    (fair.attached i) (steady i)
  obtain ⟨empty, phase⟩ := queue_and_phase_of_isClosed closed
  obtain ⟨yields, answers⟩ := tracks.of_between (by simp [phase])
  simp only [accounted, sent, empty, phase, Phase.held_ended, List.append_nil] at all
  simp only [Course, phase, Phase.isLast_ended, if_true] at course
  obtain ⟨samples, last, eq, before, terminal⟩ := course
  refine ⟨samples, last, _, i, eq ▸ yields, before, terminal, fun j le => ?_⟩
  obtain ⟨task_eq, -, received_eq⟩ := Run.frozen_of_isClosed resp closed j le
  refine ⟨?_, Run.isClosed_of_le resp le closed, ?_⟩
  · rw [received_eq, all, emitted, eq]
  · have calls := congrArg List.length answers
    simp only [Poller.answers, List.length_map, List.length_reverse, eq,
      List.length_append, List.length_singleton] at calls
    simp [startTimes, task_eq, calls]

/-- **A poller delivers in order and completely.**  At any time what has been received is a part
of the events of the samples so far, from its beginning, whatever the task, the consumer and the
clock did.  And if the sampler cannot put off its terminal sample for ever, then a consumer that
stays, in a watch that nobody cancels, receives the events of all samples up to the terminal one
and no others; from then on the queue reads closed, and the sampler has been called once for each
of these samples. -/
theorem delivers_in_order_and_completely (sampler : Sampler σ ε) (schedule : Schedule) (s : σ)
    (capacity : Nat) :
    (∀ cancelled n, Steps (task sampler schedule)
        (Net.start ({ sampler := s } : Poller σ ε) capacity cancelled) n →
      (∃ s', sampler.Yields s n.task.samples s') ∧
        n.received <+: n.task.samples.flatMap Sample.events) ∧
    (sampler.Ends s →
      ∀ run : Run (task sampler schedule)
          (Net.start ({ sampler := s } : Poller σ ε) capacity false),
        run.Draining → run.Steady →
          ∃ samples last s' i, sampler.Yields s (samples ++ [last]) s' ∧
            (∀ x ∈ samples, x.terminal = false) ∧ last.terminal = true ∧
            ∀ j ≥ i, (run.state j).received = (samples ++ [last]).flatMap Sample.events ∧
              (run.state j).isClosed (task sampler schedule) = true ∧
              (run.state j).task.startTimes.length = samples.length + 1) := by
  constructor
  · intro cancelled n steps
    exact ⟨(tracks_of_steps steps (Tracks.fresh sampler s)).yields,
      received_prefix_emitted steps (Tracks.fresh sampler s) (accounted_start s _ _)⟩
  · intro ends run fair steady
    exact exists_all_received ends fair steady

/-- Two events, nothing, then a last event, into the smallest queue: all three are received, after
three samples. -/
theorem delivers_two_then_last :
    ∃ run : Run (task (.ofSequence (fun k => [.emit [1, 2], .pending].getD k (.finish 3))
          fun k => 2 * k) { interval := 5 })
        (Net.start ({ sampler := 0 } : Poller Nat Nat) 0 false),
      run.Draining ∧ run.Steady ∧
      (∀ i, (run.state i).received <+: (run.state i).task.samples.flatMap Sample.events) ∧
      ∃ i, (run.state i).received = [1, 2, 3] ∧ (run.state i).task.startTimes.length = 3 := by
  have delivers := delivers_in_order_and_completely
    (.ofSequence (fun k => [.emit [1, 2], .pending].getD k (.finish 3)) fun k => 2 * k)
    { interval := 5 } 0 0
  obtain ⟨run, fair, steady⟩ := exists_draining
    (Net.start ({ sampler := 0 } : Poller Nat Nat) 0 false) rfl
  obtain ⟨given, last, s', i, yields, before, terminal, all⟩ :=
    delivers.2 (Sampler.ofSequence_ends (k := 2) rfl (by decide)) run fair steady
  obtain ⟨length_eq, given_eq⟩ := Sampler.ofSequence_yields_first yields before terminal
    (k := 2) rfl (by decide)
  obtain ⟨received, -, calls⟩ := all i le_rfl
  refine ⟨run, fair, steady, fun j => (delivers.1 false _ (run.steps j)).2, i, ?_, ?_⟩
  · rw [received, given_eq]; rfl
  · rw [calls, length_eq]

end DeployWatch.Watch.Poller
