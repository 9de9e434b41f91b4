/-
# The ends of a queue and the queue of a watch

A watch has its queue built in; here it is compared with the ends of a queue used directly.  A task
that sends an event may do just what comes of sending it (`Sends`): this holds of a poller with
events to forward and of a deployment run with a line or its outcome to report.  A poller that
waits comes out of its sleep as the sending end does, and the receiving end gets what the consumer
of a watch gets.

What holds of all operations on both ends, in whatever way they come out, is that events are taken
out in the order in which they went in, that no more of them are queued than the queue holds, and
that all of them have been taken out when the queue reads closed (`Channel.keeps_order`).
-/

import DeployWatch.Deploy.Run
import DeployWatch.Proofs.Watch.Runs
import DeployWatch.Watch.Poller
import DeployWatch.Watch.Sink

namespace DeployWatch.Watch

open Net

variable {σ ε : Type}

/-! ### The queue in a watch -/

/-- The watch in which this is the queue, with its task in some state. -/
def Channel.net (c : Channel ε) (task : σ) : Net σ ε where
  task := task
  queue := c.queue
  capacity := c.capacity
  now := c.now
  cancelled := c.seesCancel
  gone := !c.hasHandle

/-- A task in some state sends an event: what it may do is what may come of sending the event, and
it goes on in one state if the event is queued and in another one if it is told to stop. -/
def Sends (t : Task σ ε) (c : Channel ε) (s : σ) (event : ε) (queued stopped : σ) : Prop :=
  ((c.net s).moves t).map (c.net s).take =
    (c.outcomes (.send event)).filterMap fun outcome =>
      match outcome.2 with
      | .truth true => some (outcome.1.net queued)
      | .truth false => some (outcome.1.net stopped)
      | _ => none

variable {t : Task σ ε} {c d : Channel ε} {s queued stopped : σ} {event : ε}

@[simp] theorem net_task (c : Channel ε) (s : σ) : (c.net s).task = s := rfl

@[simp] theorem view_net (c : Channel ε) (s : σ) : (c.net s).view =
    { now := c.now, cancelled := c.seesCancel, gone := !c.hasHandle, room := c.hasRoom } := rfl

/-- A task sends an event if it takes these steps and no others. -/
theorem sends_of_moves (sink : c.hasSink = true)
    (moves : (c.net s).moves t =
      if c.hasHandle = false then [{ state := stopped }]
      else (if c.hasRoom then [{ state := queued, event := some event }] else [])
        ++ (if c.seesCancel then [{ state := stopped }] else [])) :
    Sends t c s event queued stopped := by
  unfold Sends
  rw [moves]
  unfold Channel.outcomes Channel.send
  cases handle : c.hasHandle with
  | false => simp [sink, Channel.net, take, handle]
  | true =>
    cases room : c.hasRoom <;> cases off : c.seesCancel <;>
      simp [sink, Channel.net, take, handle, Channel.seesCancel]

/-- A poller with events to forward sends the first of them. -/
theorem Poller.sends {sampler : Sampler σ ε} {schedule : Schedule} {p : Poller σ ε}
    {rest : List ε} {terminal : Bool} (phase : p.phase = .forwarding event rest terminal)
    (sink : c.hasSink = true) :
    Sends (Poller.task sampler schedule) c p event (p.forward schedule c.now rest terminal)
      p.stop := by
  apply sends_of_moves sink
  cases handle : c.hasHandle <;> simp [Net.moves, Poller.task, Poller.moves, phase, handle]

/-- The end of a deployment run's queue knows of no cancellation. -/
theorem seesCancel_of_plain (plain : c.cancellable = false) : c.seesCancel = false := by
  simp [Channel.seesCancel, plain]

/-- A deployment run sends the event of a line. -/
theorem sends_line {c : Channel ProgressEvent} {r : DeployRun} {line : String}
    (phase : r.phase = .sending line) (sink : c.hasSink = true) (plain : c.cancellable = false) :
    Sends DeployRun.task c r (.ofLine line) { r with phase := .reading }
      (r.awaitExit c.now none true) := by
  apply sends_of_moves sink
  cases handle : c.hasHandle <;>
    simp [Net.moves, DeployRun.task, DeployRun.moves, phase, handle, seesCancel_of_plain plain]

/-- A deployment run sends its last event, and goes on in the same way if nobody listens. -/
theorem sends_last {c : Channel ProgressEvent} {r : DeployRun} {last : ProgressEvent}
    (phase : r.phase = .reporting last) (sink : c.hasSink = true) (plain : c.cancellable = false) :
    Sends DeployRun.task c r last { r with phase := .cleaning } { r with phase := .cleaning } := by
  apply sends_of_moves sink
  cases handle : c.hasHandle <;>
    simp [Net.moves, DeployRun.task, DeployRun.moves, phase, handle, seesCancel_of_plain plain]

/-- A step without an event changes the task alone. -/
theorem steps_of_silent {n : Net σ ε} (h : { state := s } ∈ n.moves t) :
    Steps t n { n with task := s } := by
  have steps := (Step.task n { state := s } h).steps
  simpa [take] using steps

/-- The steps of a poller that waits, at some time. -/
theorem Poller.moves_waiting {sampler : Sampler σ ε} {schedule : Schedule} {p : Poller σ ε}
    {due : Nat} (phase : p.phase = .waiting due) (now : Nat) :
    ((c.net p).advance now).moves (Poller.task sampler schedule) =
      (if c.seesCancel then [{ state := p.stop }] else [])
        ++ (if due ≤ now then [{ state := p.startSample sampler now }] else []) := by
  simp [Net.moves, Poller.task, Poller.moves, Net.advance, Net.view, Channel.net, phase]

/-- A poller that waits sleeps: it takes its next sample after a sleep, and stops where the sleep
comes to nothing. -/
theorem Poller.sleeps {sampler : Sampler σ ε} {schedule : Schedule} {p : Poller σ ε} {ms : Nat}
    {answer : ChannelAnswer ε} (phase : p.phase = .waiting (c.now + ms)) (sink : c.hasSink = true)
    (h : (d, answer) ∈ c.outcomes (.sleep ms)) :
    (answer = .truth true ∧ Steps (Poller.task sampler schedule) (c.net p)
      (d.net (p.startSample sampler d.now))) ∨
    (answer = .truth false ∧ Steps (Poller.task sampler schedule) (c.net p) (d.net p.stop)) := by
  have now : (c.net p).advance c.now = c.net p := rfl
  have wakes : Steps (Poller.task sampler schedule) ((c.net p).advance (c.now + ms))
      (({ c with now := c.now + ms } : Channel ε).net (p.startSample sampler (c.now + ms))) := by
    refine steps_of_silent (n := (c.net p).advance (c.now + ms)) ?_
    rw [Poller.moves_waiting phase]
    simp
  simp only [Channel.outcomes, Channel.sleep, sink, Bool.not_true, Bool.false_eq_true, if_false,
    List.mem_append] at h
  rcases h with stopped | slept
  · obtain ⟨off, rfl, rfl⟩ : c.seesCancel = true ∧ d = c ∧ answer = .truth false := by
      simpa using stopped
    refine .inr ⟨rfl, steps_of_silent (n := d.net p) ?_⟩
    rw [← now, Poller.moves_waiting phase]
    simp [off]
  · split at slept
    case isFalse => cases slept
    case isTrue free =>
    obtain ⟨rfl, rfl⟩ : d = { c with now := c.now + ms } ∧ answer = .truth true := by
      simpa [sink] using slept
    have free : c.seesCancel = false ∨ ms = 0 := by simpa using free
    refine .inl ⟨rfl, Steps.trans ?_ wakes⟩
    by_cases still : ms = 0
    · subst still
      exact .refl _
    · -- the clock may move on, for the poller has nothing to do before the end of the sleep
      have on : c.seesCancel = false := free.resolve_right still
      refine (Step.elapse _ (c.now + ms) ?_ (Nat.le_add_right _ _) ?_).steps
      · rw [← now, Poller.moves_waiting phase]
        have late : ¬ c.now + ms ≤ c.now := by omega
        simp [on, late]
      · intro due timer
        simp only [Poller.task, Poller.timer?, net_task, phase, Option.some.injEq] at timer
        exact Nat.le_of_eq timer

/-- The receiving end gets what the consumer of a watch gets. -/
theorem receive_eq (here : c.hasHandle = true) (ended : t.ended s = !c.hasSink) :
    c.receive = match (c.net s).receive? with
      | some (e, n) => ({ c with queue := n.queue }, .event e)
      | none => if (c.net s).isClosed t then (c, .closed) else (c.giveUp, .pending) := by
  unfold Channel.receive receive? isClosed
  cases queue : c.queue with
  | nil => cases sink : c.hasSink <;> simp [Channel.net, here, queue, ended, sink]
  | cons e rest => simp [Channel.net, here, queue]

namespace Channel

/-! ### The order of the events -/

/-- Operations one after the other, each with what it came to. -/
inductive Plays : Channel ε → List (ChannelAct ε × ChannelAnswer ε) → Channel ε → Prop
  | nil (c : Channel ε) : Plays c [] c
  | cons {c m d : Channel ε} {log : List (ChannelAct ε × ChannelAnswer ε)} (act : ChannelAct ε)
      (answer : ChannelAnswer ε) (h : (m, answer) ∈ c.outcomes act) (rest : Plays m log d) :
      Plays c ((act, answer) :: log) d

/-- The event that went into the queue with an operation. -/
def queuedBy : ChannelAct ε × ChannelAnswer ε → List ε
  | (.send event, .truth true) => [event]
  | _ => []

/-- The events that were taken out of the queue with an operation. -/
def takenBy : ChannelAct ε × ChannelAnswer ε → List ε
  | (_, .event event) => [event]
  | (_, .events all) => all
  | _ => []

/-- The answer tells that the queue is closed. -/
def tellsClosed : ChannelAnswer ε → Bool
  | .closed | .events _ => true
  | _ => false

/-- What an operation does to the queue, with the events that go in and those that are taken out. -/
inductive Effect (c d : Channel ε) : List ε → List ε → Bool → Prop
  /-- Nothing goes in or out. -/
  | rests (queue : d.queue = c.queue) (handle : d.hasHandle = c.hasHandle) : Effect c d [] [] false
  /-- An event goes in. -/
  | queues (event : ε) (here : c.hasHandle = true) (room : c.queue.length < c.capacity)
      (queue : d.queue = c.queue ++ [event]) : Effect c d [event] [] false
  /-- The first event is taken out. -/
  | takes (event : ε) (queue : c.queue = event :: d.queue) (here : c.hasHandle = true) :
      Effect c d [] [event] false
  /-- The receiving end sees that the queue is closed. -/
  | closes (taken : List ε) (here : c.hasHandle = true) (all : taken = c.queue)
      (empty : d.queue = []) : Effect c d [] taken true
  /-- The receiving end is given up. -/
  | leaves (left : d.hasHandle = false) (empty : d.queue = []) : Effect c d [] [] false

variable {action : ChannelAct ε} {answer : ChannelAnswer ε}

/-- What an operation with an answer does to the capacity and to the queue. -/
def Affects (c : Channel ε) (action : ChannelAct ε) (d : Channel ε) (answer : ChannelAnswer ε) :
    Prop :=
  d.capacity = c.capacity ∧
    Effect c d (queuedBy (action, answer)) (takenBy (action, answer)) (tellsClosed answer)

/-- An operation with one outcome has the effect of that outcome. -/
theorem affects_of_eq {kept : Channel ε} {told : ChannelAnswer ε} (h : (d, answer) = (kept, told))
    (affects : c.Affects action kept told) : c.Affects action d answer := by
  obtain ⟨rfl, rfl⟩ := Prod.mk.inj h
  exact affects

theorem affects_send (h : (d, answer) ∈ c.send event) : c.Affects (.send event) d answer := by
  unfold send at h
  split at h
  · exact affects_of_eq (List.mem_singleton.mp h) ⟨rfl, .rests rfl rfl⟩
  · split at h
    · exact affects_of_eq (List.mem_singleton.mp h) ⟨rfl, .rests rfl rfl⟩
    · next here =>
      split at h
      · exact affects_of_eq (List.mem_singleton.mp h) ⟨rfl, .rests rfl rfl⟩
      · rcases List.mem_append.mp h with queued | stopped
        · obtain ⟨room, queued⟩ := List.mem_ite_nil_right.mp queued
          have here : c.hasHandle = true := by simpa using here
          have room : c.queue.length < c.capacity := by simpa [hasRoom] using room
          exact affects_of_eq (List.mem_singleton.mp queued) ⟨rfl, .queues event here room rfl⟩
        · obtain ⟨-, stopped⟩ := List.mem_ite_nil_right.mp stopped
          exact affects_of_eq (List.mem_singleton.mp stopped) ⟨rfl, .rests rfl rfl⟩

theorem affects_sleep {ms : Nat} (h : (d, answer) ∈ c.sleep ms) :
    c.Affects (.sleep ms) d answer := by
  unfold sleep at h
  split at h
  · exact affects_of_eq (List.mem_singleton.mp h) ⟨rfl, .rests rfl rfl⟩
  · rcases List.mem_append.mp h with stopped | slept
    · obtain ⟨-, stopped⟩ := List.mem_ite_nil_right.mp stopped
      exact affects_of_eq (List.mem_singleton.mp stopped) ⟨rfl, .rests rfl rfl⟩
    · obtain ⟨-, slept⟩ := List.mem_ite_nil_right.mp slept
      exact affects_of_eq (List.mem_singleton.mp slept) ⟨rfl, .rests rfl rfl⟩

theorem affects_receive (h : (d, answer) = c.receive) : c.Affects .receive d answer := by
  unfold receive at h
  split at h
  · exact affects_of_eq h ⟨rfl, .rests rfl rfl⟩
  · next here =>
    have here : c.hasHandle = true := by simpa using here
    split at h
    · next e rest queue => exact affects_of_eq h ⟨rfl, .takes e queue here⟩
    · next queue =>
      split at h
      · exact affects_of_eq h ⟨rfl, .rests rfl rfl⟩
      · exact affects_of_eq h ⟨rfl, .closes [] here queue.symm queue⟩

theorem affects_collect (h : (d, answer) = c.collect) : c.Affects .collect d answer := by
  unfold collect at h
  split at h
  · exact affects_of_eq h ⟨rfl, .rests rfl rfl⟩
  · next here =>
    dsimp only at h
    split at h
    · exact affects_of_eq h ⟨rfl, .leaves rfl rfl⟩
    · exact affects_of_eq h ⟨rfl, .closes c.queue (by simpa using here) rfl rfl⟩

/-- Every operation has one of the effects on the queue. -/
theorem affects_of_mem (h : (d, answer) ∈ c.outcomes action) : c.Affects action d answer := by
  cases action with
  | send event => exact affects_send h
  | receive => exact affects_receive (List.mem_singleton.mp h)
  | sleep ms => exact affects_sleep h
  | isCancelled =>
    have h := List.mem_singleton.mp h
    split at h <;> exact affects_of_eq h ⟨rfl, .rests rfl rfl⟩
  | cancel | dropSink => exact affects_of_eq (List.mem_singleton.mp h) ⟨rfl, .rests rfl rfl⟩
  | dropHandle => exact affects_of_eq (List.mem_singleton.mp h) ⟨rfl, .leaves rfl rfl⟩
  | collect => exact affects_collect (List.mem_singleton.mp h)

/-- The simulation does one of the things that an operation may come to. -/
theorem act_mem_outcomes (c : Channel ε) (action : ChannelAct ε) :
    c.act action ∈ c.outcomes action := by
  have some : c.outcomes action ≠ [] := by
    cases action with
    | send event =>
      simp only [outcomes, send]
      cases c.hasSink <;> cases c.hasHandle <;> cases c.hasRoom <;> cases c.seesCancel <;> simp
    | sleep ms =>
      simp only [outcomes, sleep]
      cases c.hasSink <;> cases c.seesCancel <;> simp
    | receive | isCancelled | cancel | dropSink | dropHandle | collect =>
      exact List.cons_ne_nil _ _
  obtain ⟨first, others, some⟩ := List.exists_cons_of_ne_nil some
  unfold act
  rw [some]
  exact List.mem_cons_self

/-- How the events that went into a queue and those that were taken out of it compare. -/
structure Kept (capacity : Nat) (queued taken : List ε) (c : Channel ε) : Prop where
  capacity_eq : c.capacity = max capacity 1
  fits : c.queue.length ≤ c.capacity
  inOrder : taken <+: queued
  whole : c.hasHandle = true → taken ++ c.queue = queued

variable {capacity : Nat} {cancellable : Bool} {queued taken more out : List ε} {closed : Bool}
  {log : List (ChannelAct ε × ChannelAnswer ε)}

/-- Every effect keeps the order. -/
theorem Kept.effect (kept : Kept capacity queued taken c) (same : d.capacity = c.capacity)
    (effect : Effect c d more out closed) : Kept capacity (queued ++ more) (taken ++ out) d := by
  obtain ⟨capacity_eq, fits, inOrder, whole⟩ := kept
  have capacity_eq : d.capacity = max capacity 1 := same.trans capacity_eq
  cases effect with
  | rests queue handle =>
    rw [List.append_nil, List.append_nil]
    refine ⟨capacity_eq, ?_, inOrder, ?_⟩
    · rw [queue, same]
      exact fits
    · rw [queue, handle]
      exact whole
  | queues event here room queue =>
    rw [List.append_nil]
    refine ⟨capacity_eq, ?_, inOrder.trans (List.prefix_append _ _), fun _ => ?_⟩
    · rw [queue, same, List.length_append]
      exact room
    · rw [queue, ← whole here, List.append_assoc]
  | takes event queue here =>
    have all := whole here
    rw [queue] at all fits
    have moved : (taken ++ [event]) ++ d.queue = queued := by
      rw [List.append_assoc]
      exact all
    rw [List.append_nil]
    exact ⟨capacity_eq, by rw [same]; exact Nat.le_of_succ_le fits, ⟨_, moved⟩, fun _ => moved⟩
  | closes out here all empty =>
    have moved : taken ++ out = queued := by rw [all]; exact whole here
    rw [List.append_nil, moved]
    refine ⟨capacity_eq, by simp [empty], List.prefix_refl _, fun _ => by simp [empty]⟩
  | leaves left empty =>
    rw [List.append_nil, List.append_nil]
    exact ⟨capacity_eq, by simp [empty], inOrder, fun here => by simp [left] at here⟩

/-- When the queue reads closed all events have been taken out. -/
theorem Kept.all_taken (kept : Kept capacity queued taken c)
    (effect : Effect c d more out true) : taken ++ out = queued := by
  cases effect with
  | closes out here all empty => rw [all, kept.whole here]

theorem kept_ofCapacity (capacity : Nat) (cancellable : Bool) :
    Kept capacity [] [] (ofCapacity capacity cancellable : Channel ε) :=
  ⟨rfl, Nat.zero_le _, List.prefix_refl _, fun _ => rfl⟩

/-- Any number of operations keep the order. -/
theorem Kept.plays (kept : Kept capacity queued taken c) (plays : Plays c log d) :
    Kept capacity (queued ++ log.flatMap queuedBy) (taken ++ log.flatMap takenBy) d := by
  induction plays generalizing queued taken with
  | nil c => simpa using kept
  | cons action answer h rest ih =>
    obtain ⟨same, effect⟩ := affects_of_mem h
    simpa using ih (kept.effect same effect)

/-- **A queue keeps the order of its events.**  Whatever is done at both ends, and however it comes
out, the events that were taken out are the first of those that went in, in the same order; as long
as the receiving end is there the others are queued, never more of them than the queue holds; and
if the queue reads closed all have been taken out. -/
theorem keeps_order (plays : Plays (ofCapacity capacity cancellable) log c) :
    log.flatMap takenBy <+: log.flatMap queuedBy ∧
    (c.hasHandle = true → log.flatMap takenBy ++ c.queue = log.flatMap queuedBy) ∧
    c.queue.length ≤ max capacity 1 ∧
    ∀ action d answer, (d, answer) ∈ c.outcomes action → tellsClosed answer = true →
      log.flatMap takenBy ++ takenBy (action, answer) = log.flatMap queuedBy := by
  have kept := (kept_ofCapacity capacity cancellable).plays plays
  simp only [List.nil_append] at kept
  refine ⟨kept.inOrder, kept.whole, kept.capacity_eq ▸ kept.fits, ?_⟩
  intro action d answer h closed
  obtain ⟨same, effect⟩ := affects_of_mem h
  rw [closed] at effect
  exact kept.all_taken effect

/-- The simulation plays one of the courses that things may take. -/
theorem exists_plays_actAll (c : Channel ε) (actions : List (ChannelAct ε)) :
    ∃ d, Plays c (actions.zip ((c.actAll actions).map Prod.fst)) d := by
  induction actions generalizing c with
  | nil => exact ⟨c, .nil c⟩
  | cons action actions ih =>
    obtain ⟨d, plays⟩ := ih (c.act action).1
    exact ⟨d, .cons action (c.act action).2 (act_mem_outcomes c action) plays⟩

end Channel

end DeployWatch.Watch
