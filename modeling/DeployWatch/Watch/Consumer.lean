/-
# The consumer of a watch

A consumer receives events one at a time or all together, waits, cancels, or drops its end of
the queue.  The task runs whenever the consumer has to wait: it runs as far as it can, then
the consumer is served, and only if there is nothing for it does the clock jump to the next
timer or to the consumer's own deadline.
-/

import DeployWatch.Watch.Net

namespace DeployWatch.Watch

/-- The steps that a task may take without the clock moving. -/
def burst : Nat := 100000

/-- What a consumer that waits for an event gets. -/
inductive Reception (ε : Type) where
  | event (e : ε)
  /-- The queue is closed. -/
  | closed
  /-- Nothing came before the deadline. -/
  | timeout
  deriving DecidableEq, Repr

/-- How receiving to the end came to an end. -/
inductive DrainEnd where
  | closed
  | timeout
  deriving DecidableEq, Repr

/-- Something that a consumer does. -/
inductive Act where
  /-- Waits for an event, at most so many ticks. -/
  | receive (limit : Nat)
  /-- Receives until the queue is closed or an event takes longer than the limit. -/
  | drain (limit : Nat)
  /-- Gives up the handle for all events up to the closing of the queue. -/
  | collect (limit : Nat)
  | wait (ms : Nat)
  | cancel
  | drop
  /-- Asks how often the task has looked at what it watches. -/
  | count
  deriving DecidableEq, Repr

/-- What a consumer's action results in; every answer comes with its time. -/
inductive Answer (ε : Type) where
  | received (what : Reception ε) (time : Nat)
  | drained (events : List (ε × Nat)) (ending : DrainEnd) (time : Nat)
  | collected (events : List ε) (time : Nat)
  | done (time : Nat)
  | counted (n time : Nat)
  /-- There is no handle any more. -/
  | noHandle
  deriving Repr

namespace Net

variable {σ ε : Type}

/-- The time of the next timer, if it is before a deadline, else the deadline. -/
def nextTime (t : Task σ ε) (n : Net σ ε) (deadline : Nat) : Nat :=
  match t.timer? n.task with
  | some due => max n.now (min due deadline)
  | none => deadline

/-- Lets the task run and the clock jump until a time, with at most `fuel` jumps. -/
def runUntil (t : Task σ ε) (time : Nat) : Nat → Net σ ε → Net σ ε
  | 0, n => n
  | fuel + 1, n =>
    let n := n.settle t burst
    if time ≤ n.now then n
    else runUntil t time fuel (n.advance (n.nextTime t time))

/-- The watch after so many ticks. -/
def wait (t : Task σ ε) (n : Net σ ε) (ms : Nat) : Net σ ε :=
  n.runUntil t (n.now + ms) (ms + 2)

/-- Receives until the queue is closed, however long that takes; at most `fuel` things happen. -/
def exhaust (t : Task σ ε) : Nat → Net σ ε → Net σ ε
  | 0, n => n
  | fuel + 1, n => if n.isClosed t then n else exhaust t fuel (eager t n)

/-- Receives an event or waits for one, with at most `fuel` jumps of the clock. -/
def awaitUntil (t : Task σ ε) (deadline : Nat) : Nat → Net σ ε → Reception ε × Net σ ε
  | fuel, n =>
    match n.receive? with
    | some (e, next) => (.event e, next)
    | none =>
      if n.isClosed t then (.closed, n)
      else
        let n := n.settle t burst
        match n.receive? with
        | some (e, next) => (.event e, next)
        | none =>
          if n.isClosed t then (.closed, n)
          else if deadline ≤ n.now then (.timeout, n)
          else match fuel with
            | 0 => (.timeout, n)
            | fuel + 1 => awaitUntil t deadline fuel (n.advance (n.nextTime t deadline))

/-- Receives an event or waits for one, at most so many ticks. -/
def await (t : Task σ ε) (n : Net σ ε) (limit : Nat) : Reception ε × Net σ ε :=
  n.awaitUntil t (n.now + limit) (limit + 2)

/-- Receives until the queue is closed or an event takes too long, at most `fuel` events.
The events come with their times. -/
def drainUpTo (t : Task σ ε) (limit : Nat) :
    Nat → Net σ ε → List (ε × Nat) × DrainEnd × Net σ ε
  | 0, n => ([], .timeout, n)
  | fuel + 1, n =>
    match n.await t limit with
    | (.event e, next) =>
      let (events, ending, last) := drainUpTo t limit fuel next
      ((e, next.now) :: events, ending, last)
    | (.closed, n) => ([], .closed, n)
    | (.timeout, n) => ([], .timeout, n)

/-- Receives all events before a deadline up to the closing of the queue, at most `fuel` of
them; none if the queue is not closed in time. -/
def collectUpTo (t : Task σ ε) (deadline : Nat) : Nat → Net σ ε → Option (List ε) × Net σ ε
  | 0, n => (none, n)
  | fuel + 1, n =>
    match n.awaitUntil t deadline (deadline - n.now + 2) with
    | (.event e, next) =>
      let (events, last) := collectUpTo t deadline fuel next
      (events.map (e :: ·), last)
    | (.closed, n) => (some [], n)
    | (.timeout, n) => (none, n)

end Net

/-- A consumer with its watch. -/
structure Session (σ ε : Type) where
  net : Net σ ε
  /-- The consumer still has its end of the queue. -/
  attached : Bool := true

namespace Session

variable {σ ε : Type}

/-- The events that a consumer takes in one go at most. -/
def batch : Nat := 100000

/-- The session after an action, and the answer to it.  `calls` counts how often the task
has looked at what it watches; a watch without a token to cancel it ignores being
cancelled. -/
def act (t : Task σ ε) (calls : σ → Nat) (cancellable : Bool) (s : Session σ ε) :
    Act → Session σ ε × Answer ε
  | .wait ms =>
    let n := s.net.wait t ms
    ({ s with net := n }, .done n.now)
  | .cancel =>
    let n := if cancellable then s.net.cancel else s.net
    ({ s with net := n }, .done n.now)
  | .count => (s, .counted (calls s.net.task) s.net.now)
  | action =>
    if !s.attached then (s, .noHandle)
    else match action with
      | .receive limit =>
        let (what, n) := s.net.await t limit
        ({ s with net := n }, .received what n.now)
      | .drain limit =>
        let (events, ending, n) := s.net.drainUpTo t limit batch
        ({ s with net := n }, .drained events ending n.now)
      | .collect limit =>
        let (events?, n) := s.net.collectUpTo t (s.net.now + limit) batch
        let n := n.drop
        (⟨n, false⟩, match events? with
          | some events => .collected events n.now
          | none => .received .timeout n.now)
      | _ => (⟨s.net.drop, false⟩, .done s.net.now)

/-- The session after several actions, with their answers. -/
def actAll (t : Task σ ε) (calls : σ → Nat) (cancellable : Bool) (s : Session σ ε) :
    List Act → Session σ ε × List (Answer ε)
  | [] => (s, [])
  | action :: actions =>
    let (s, answer) := s.act t calls cancellable action
    let (s, answers) := actAll t calls cancellable s actions
    (s, answer :: answers)

end Session

end DeployWatch.Watch
