/-
# Watches: a task, a queue and a consumer

A watch is a task in the background that feeds events into a bounded queue, and a consumer
that takes them out in the same order.  The task is a state machine: at any instant it has a
list of steps that it may take, possibly none, and perhaps a timer that will give it new
ones.  Where the list has several entries the order in which things happen is not fixed; the
simulation takes the first one, and what is proved has to hold for all of them.

Time is counted in the ticks of a clock and stands still while the task can take a step.
-/

namespace DeployWatch.Watch

/-- What a task sees of its surroundings. -/
structure View where
  now : Nat
  /-- The watch has been cancelled. -/
  cancelled : Bool
  /-- The consumer has dropped its end of the queue. -/
  gone : Bool
  /-- The queue can take another event. -/
  room : Bool
  deriving DecidableEq, Repr

/-- A step of a task: its next state, and the event that it queues with the step. -/
structure Move (σ ε : Type) where
  state : σ
  event : Option ε := none

/-- A task with states in `σ` that produces events in `ε`. -/
structure Task (σ ε : Type) where
  /-- The steps that the task may take at an instant. -/
  moves : View → σ → List (Move σ ε)
  /-- When the timer expires that the task waits for. -/
  timer? : σ → Option Nat
  /-- The task has ended and closed its end of the queue. -/
  ended : σ → Bool

/-- A running watch. -/
structure Net (σ ε : Type) where
  task : σ
  /-- Events queued and not yet received, the oldest first. -/
  queue : List ε := []
  /-- The number of events that the queue holds. -/
  capacity : Nat
  now : Nat := 0
  cancelled : Bool := false
  gone : Bool := false
  /-- The events received so far, in their order. -/
  received : List ε := []

namespace Net

variable {σ ε : Type}

/-- A watch that has just been started.  A queue holds at least one event. -/
def start (task : σ) (capacity : Nat) (cancelled : Bool) : Net σ ε where
  task := task
  capacity := max capacity 1
  cancelled := cancelled

/-- What the task of a watch sees. -/
def view (n : Net σ ε) : View where
  now := n.now
  cancelled := n.cancelled
  gone := n.gone
  room := n.queue.length < n.capacity

/-- The watch after a step of its task. -/
def take (n : Net σ ε) (move : Move σ ε) : Net σ ε :=
  { n with task := move.state, queue := n.queue ++ move.event.toList }

/-- The first event in the queue, and the watch without it. -/
def receive? (n : Net σ ε) : Option (ε × Net σ ε) :=
  match n.queue with
  | [] => none
  | e :: rest => some (e, { n with queue := rest, received := n.received ++ [e] })

/-- The watch after the consumer has dropped its end.  Nobody will receive what is queued. -/
def drop (n : Net σ ε) : Net σ ε := { n with queue := [], gone := true }

/-- The watch after it has been cancelled. -/
def cancel (n : Net σ ε) : Net σ ε := { n with cancelled := true }

/-- The watch at a later time. -/
def advance (n : Net σ ε) (now : Nat) : Net σ ε := { n with now }

/-- The steps that the task may take now. -/
def moves (t : Task σ ε) (n : Net σ ε) : List (Move σ ε) := t.moves n.view n.task

/-- No event will ever be received again. -/
def isClosed (t : Task σ ε) (n : Net σ ε) : Bool := n.queue.isEmpty && t.ended n.task

/-- Everything that can happen to a watch, in any order. -/
inductive Step (t : Task σ ε) : Net σ ε → Net σ ε → Prop where
  /-- The task takes one of its steps. -/
  | task (n : Net σ ε) (move : Move σ ε) (h : move ∈ n.moves t) : Step t n (n.take move)
  /-- The consumer receives an event. -/
  | receive (n next : Net σ ε) (e : ε) (here : n.gone = false)
      (h : n.receive? = some (e, next)) : Step t n next
  | drop (n : Net σ ε) : Step t n n.drop
  | cancel (n : Net σ ε) : Step t n n.cancel
  /-- Time passes, but not beyond the timer of the task, and only while the task has
  nothing to do. -/
  | elapse (n : Net σ ε) (now : Nat) (idle : n.moves t = []) (later : n.now ≤ now)
      (h : ∀ due, t.timer? n.task = some due → now ≤ due) : Step t n (n.advance now)

/-- Any number of steps. -/
inductive Steps (t : Task σ ε) : Net σ ε → Net σ ε → Prop where
  | refl (n : Net σ ε) : Steps t n n
  | tail {a b c : Net σ ε} (run : Steps t a b) (step : Step t b c) : Steps t a c

/-- The watch after the first step that its task may take. -/
def step? (t : Task σ ε) (n : Net σ ε) : Option (Net σ ε) :=
  (n.moves t).head?.map n.take

/-- Lets the task run until it has nothing to do, for at most `fuel` steps. -/
def settle (t : Task σ ε) : Nat → Net σ ε → Net σ ε
  | 0, n => n
  | fuel + 1, n => match n.step? t with
    | some next => settle t fuel next
    | none => n

/-- What happens next when everybody is eager: the consumer receives, else the task takes its
first step, else the clock jumps to the timer. -/
def eager (t : Task σ ε) (n : Net σ ε) : Net σ ε :=
  match n.receive? with
  | some (_, next) => next
  | none =>
    match n.step? t with
    | some next => next
    | none =>
      match t.timer? n.task with
      | some due => if n.now ≤ due then n.advance due else n
      | none => n

end Net

end DeployWatch.Watch
