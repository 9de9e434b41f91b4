/-
# What a poller can be seen to do

From outside a poller does three things: it starts a sample, a sample gives its result, and an
event gets into the queue.  These are its deeds, and what was new in a step can be read off the
states before and after it (`Poller.deeds`).  Only turns of the poller bring news
(`Poller.deeds_of_task_eq`), and what a turn brings is what it adds to the record and to the queue
(`Poller.deeds_take`).
-/

import DeployWatch.Proofs.Watch.Chronicle
import DeployWatch.Proofs.Watch.Delivery

namespace DeployWatch.Watch

/-- What can be seen of a poller from outside. -/
inductive Deed (ε : Type) where
  /-- A sample is started. -/
  | starts
  /-- The sample in flight gives its result. -/
  | returns (sample : Sample ε)
  /-- An event gets into the queue. -/
  | queues (event : ε)
  deriving DecidableEq, Repr

namespace Poller

open Net

variable {σ ε : Type} {sampler : Sampler σ ε} {schedule : Schedule} {s : σ}
  {p : Poller σ ε} {a b n m : Net (Poller σ ε) ε} {move : Move (Poller σ ε) ε}

/-- What was new in a step from one state to another, with the time. -/
def deeds (a b : Net (Poller σ ε) ε) : List (Nat × Deed ε) :=
  (((b.task.startTimes.drop a.task.startTimes.length).map fun _ => Deed.starts)
    ++ (b.task.samples.drop a.task.samples.length).map Deed.returns
    ++ ((sent b).drop (sent a).length).map Deed.queues).map fun deed => (b.now, deed)

/-! ### The times of the samples -/

@[simp] theorem startSample_startTimes (now : Nat) :
    (p.startSample sampler now).startTimes = p.startTimes ++ [now] := by
  simp [startTimes]

/-- A change of the record that does not touch when samples were started. -/
theorem record_startTimes {change : Cycle ε → Cycle ε}
    (keeps : ∀ c, (change c).started = c.started) :
    (p.record change).startTimes = p.startTimes := by
  cases h : p.cycles <;> simp [startTimes, h, keeps]

@[simp] theorem answered_startTimes (now : Nat) :
    (p.answered sampler now).startTimes = p.startTimes := by
  rw [answered]
  exact record_startTimes fun _ => rfl

@[simp] theorem forward_startTimes (now : Nat) (events : List ε) (terminal : Bool) :
    (p.forward schedule now events terminal).startTimes = p.startTimes := by
  cases events with
  | cons => rfl
  | nil =>
    rw [forward]
    exact record_startTimes fun _ => rfl

@[simp] theorem proceeding_startTimes (now : Nat) :
    (p.proceeding sampler schedule now).startTimes = p.startTimes := by
  simp [proceeding]

/-! ### What is new in a step -/

/-- There is no news where nothing happens. -/
theorem deeds_self (n : Net (Poller σ ε) ε) : deeds n n = [] := by
  simp [deeds]

/-- What happens around a poller is no deed of it. -/
theorem deeds_of_task_eq (task_eq : b.task = a.task)
    (queued : (sent b).length ≤ (sent a).length) : deeds a b = [] := by
  simp [deeds, task_eq, List.drop_eq_nil_iff.mpr queued]

/-- What is new in a turn is what it adds to the record and to the queue. -/
theorem deeds_take {times : List Nat} {samples : List (Sample ε)}
    (started : move.state.startTimes = n.task.startTimes ++ times)
    (returned : move.state.samples = n.task.samples ++ samples) :
    deeds n (n.take move) = (times.map (fun _ => Deed.starts) ++ samples.map Deed.returns
      ++ move.event.toList.map Deed.queues).map fun deed => (n.now, deed) := by
  have added : (sent (n.take move)).drop (sent n).length = move.event.toList := by
    rw [sent_take]
    exact List.drop_left
  rw [deeds, added]
  simp [take, started, returned]

/-- A turn that neither touches the record nor the queue brings no news. -/
theorem deeds_of_cycles_eq (same : move.state.cycles = n.task.cycles)
    (quiet : move.event = none) : deeds n (n.take move) = [] := by
  have started : move.state.startTimes = n.task.startTimes ++ [] := by simp [startTimes, same]
  have returned : move.state.samples = n.task.samples ++ [] := by simp [Poller.samples, same]
  rw [deeds_take started returned, quiet]
  rfl

/-- To start a sample is a deed. -/
theorem deeds_look : deeds n (n.take { state := n.task.startSample sampler n.view.now }) =
    [(n.now, .starts)] := by
  have returned : (n.task.startSample sampler n.view.now).samples = n.task.samples ++ [] := by
    simp
  rw [deeds_take (startSample_startTimes n.view.now) returned]
  rfl

/-- A result is a deed, even if nothing comes of it. -/
theorem deeds_discard (tracks : Tracks sampler s n.task) {due : Nat}
    (phase : n.task.phase = .sampling due) :
    deeds n (n.take { state := (n.task.answered sampler n.view.now).stop }) =
      [(n.now, .returns (sampler.finish n.view.now n.task.sampler).2)] := by
  have started : (n.task.answered sampler n.view.now).stop.startTimes =
      n.task.startTimes ++ [] := by
    rw [List.append_nil]
    exact answered_startTimes n.view.now
  rw [deeds_take started (tracks.answered_samples phase n.view.now)]
  rfl

/-- A result is a deed of its own; the events that come of it are others. -/
theorem deeds_keep (tracks : Tracks sampler s n.task) {due : Nat}
    (phase : n.task.phase = .sampling due) :
    deeds n (n.take { state := n.task.proceeding sampler schedule n.view.now }) =
      [(n.now, .returns (sampler.finish n.view.now n.task.sampler).2)] := by
  have started : (n.task.proceeding sampler schedule n.view.now).startTimes =
      n.task.startTimes ++ [] := by simp
  have returned : (n.task.proceeding sampler schedule n.view.now).samples =
      n.task.samples ++ [(sampler.finish n.view.now n.task.sampler).2] := by
    rw [proceeding, forward_samples]
    exact tracks.answered_samples phase n.view.now
  rw [deeds_take started returned]
  rfl

/-- To queue an event is a deed. -/
theorem deeds_send (e : ε) (rest : List ε) (terminal : Bool) :
    deeds n (n.take ⟨n.task.forward schedule n.view.now rest terminal, some e⟩) =
      [(n.now, .queues e)] := by
  have started : (n.task.forward schedule n.view.now rest terminal).startTimes =
      n.task.startTimes ++ [] := by simp
  have returned : (n.task.forward schedule n.view.now rest terminal).samples =
      n.task.samples ++ [] := by simp
  rw [deeds_take started returned]
  rfl

/-- A step is a turn of the poller, or it leaves the poller as it is and brings no news. -/
theorem turn_or_still (step : Step (task sampler schedule) a b) :
    (∃ move, Turn sampler schedule a.view a.task move ∧ b = a.take move) ∨
      b.task = a.task ∧ deeds a b = [] := by
  cases step with
  | task move hm => exact .inl ⟨move, mem_moves_iff.mp hm, rfl⟩
  | receive _ e _ h =>
    obtain ⟨rest, hq, rfl⟩ := receive?_eq_some h
    refine .inr ⟨rfl, deeds_of_task_eq rfl (le_of_eq ?_)⟩
    simp [sent, hq]
  | drop =>
    refine .inr ⟨rfl, deeds_of_task_eq rfl ?_⟩
    simp [sent, Net.drop]
  | cancel | elapse => exact .inr ⟨rfl, deeds_self _⟩

end Poller

end DeployWatch.Watch
