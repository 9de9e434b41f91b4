/-
# The queue on its own

The two ends of an event queue, used directly: one end sends and sleeps, the other receives.
An operation that cannot go on waits for a little while and is then given up; an event that
was being sent is lost with it.  A send or sleep that waits fails once the watch is
cancelled, and a send fails when the other end is gone.

What an operation comes to is not always settled: where there is room in the queue of a cancelled
watch an event may be queued or not, and no sleep may be a sleep or none.  `Channel.outcomes` lists
what may come; the simulation takes the first.
-/

namespace DeployWatch.Watch

/-- Both ends of a queue. -/
structure Channel (ε : Type) where
  queue : List ε := []
  capacity : Nat
  /-- The sending end knows about cancellation. -/
  cancellable : Bool
  cancelled : Bool := false
  hasSink : Bool := true
  hasHandle : Bool := true
  now : Nat := 0

/-- An operation on one of the ends. -/
inductive ChannelAct (ε : Type) where
  | send (event : ε)
  | receive
  | sleep (ms : Nat)
  | isCancelled
  | cancel
  | dropSink
  | dropHandle
  | collect
  deriving Repr

/-- What an operation results in. -/
inductive ChannelAnswer (ε : Type) where
  | truth (value : Bool)
  | event (event : ε)
  | events (all : List ε)
  | closed
  /-- It was given up. -/
  | pending
  /-- Its end is gone. -/
  | dropped
  | nothing
  deriving Repr

namespace Channel

variable {ε : Type}

/-- A new queue; it holds at least one event. -/
def ofCapacity (capacity : Nat) (cancellable : Bool) : Channel ε where
  capacity := max capacity 1
  cancellable := cancellable

/-- The milliseconds after which an operation that waits is given up. -/
def patience : Nat := 5

/-- The sending end sees that the watch is cancelled. -/
def seesCancel (c : Channel ε) : Bool := c.cancellable && c.cancelled

/-- The queue after a wait that came to nothing. -/
def giveUp (c : Channel ε) : Channel ε := { c with now := c.now + patience }

/-- The queue can take another event. -/
def hasRoom (c : Channel ε) : Bool := c.queue.length < c.capacity

/-- What sending an event may come to. -/
def send (c : Channel ε) (event : ε) : List (Channel ε × ChannelAnswer ε) :=
  if !c.hasSink then [(c, .dropped)]
  else if !c.hasHandle then [(c, .truth false)]
  else if !c.hasRoom && !c.seesCancel then [(c.giveUp, .pending)]
  else
    (if c.hasRoom then [({ c with queue := c.queue ++ [event] }, .truth true)] else [])
      ++ (if c.seesCancel then [(c, .truth false)] else [])

/-- Receives an event. -/
def receive (c : Channel ε) : Channel ε × ChannelAnswer ε :=
  if !c.hasHandle then (c, .dropped)
  else match c.queue with
    | e :: rest => ({ c with queue := rest }, .event e)
    | [] => if c.hasSink then (c.giveUp, .pending) else (c, .closed)

/-- What sleeping at the sending end may come to. -/
def sleep (c : Channel ε) (ms : Nat) : List (Channel ε × ChannelAnswer ε) :=
  if !c.hasSink then [(c, .dropped)]
  else
    (if c.seesCancel then [(c, .truth false)] else [])
      ++ (if !c.seesCancel || ms == 0 then [({ c with now := c.now + ms }, .truth true)] else [])

/-- Receives everything up to the closing of the queue, and gives up the receiving end. -/
def collect (c : Channel ε) : Channel ε × ChannelAnswer ε :=
  if !c.hasHandle then (c, .dropped)
  else
    let left := { c with queue := [], hasHandle := false }
    if c.hasSink then (left.giveUp, .pending) else (left, .events c.queue)

/-- What an operation may come to. -/
def outcomes (c : Channel ε) : ChannelAct ε → List (Channel ε × ChannelAnswer ε)
  | .send event => c.send event
  | .receive => [c.receive]
  | .sleep ms => c.sleep ms
  | .isCancelled => [if c.hasSink then (c, .truth c.seesCancel) else (c, .dropped)]
  | .cancel => [({ c with cancelled := true }, .nothing)]
  | .dropSink => [({ c with hasSink := false }, .nothing)]
  | .dropHandle => [({ c with queue := [], hasHandle := false }, .nothing)]
  | .collect => [c.collect]

/-- One operation. -/
def act (c : Channel ε) (action : ChannelAct ε) : Channel ε × ChannelAnswer ε :=
  (c.outcomes action).head?.getD (c, .nothing)

/-- Several operations, each answer with its time. -/
def actAll (c : Channel ε) : List (ChannelAct ε) → List (ChannelAnswer ε × Nat)
  | [] => []
  | action :: actions =>
    let (c, answer) := c.act action
    (answer, c.now) :: actAll c actions

end Channel

end DeployWatch.Watch
