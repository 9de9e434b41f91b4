/-
# Settings

Everything that can be configured: how many unread events a watch may queue, how often a
stack's deletion and a log group are looked at, how patiently a service is probed, and which
deployment tool is run.  `Settings.validate` refuses the values with which a watch would
spin or never start.
-/

import DeployWatch.Text.Blank
import DeployWatch.Time.Span

namespace DeployWatch

open DeployWatch.Time

/-- How the deletion of a stack is followed. -/
structure StackSettings where
  /-- The time between two status queries. -/
  interval : Span := Span.ofMillis 5000
  deriving DecidableEq, Repr, Inhabited

/-- How a log group is followed. -/
structure LogSettings where
  /-- The time between two queries. -/
  interval : Span := Span.ofMillis 1000
  /-- A pattern that the provider filters entries by. -/
  filter : Option String := none
  deriving DecidableEq, Repr, Inhabited

/-- How patiently a service is probed. -/
structure RetryPolicy where
  /-- The number of attempts; zero counts as one. -/
  count : Nat := 3
  /-- The time between two attempts. -/
  delay : Span := Span.ofMillis 3000
  deriving DecidableEq, Repr, Inhabited

/-- Which deployment tool is run, and with which credentials. -/
structure ToolSettings where
  /-- The name or path of the tool. -/
  program : String := "cdk"
  /-- The credential profile used when a request names none. -/
  profile : Option String := none
  deriving DecidableEq, Repr, Inhabited

/-- The bound on unread events when none is configured. -/
def defaultCapacity : Nat := 16

/-- The whole configuration. -/
structure Settings where
  /-- The bound on unread events of every watch. -/
  capacity : Nat := defaultCapacity
  stack : StackSettings := {}
  logs : LogSettings := {}
  health : RetryPolicy := {}
  deploy : ToolSettings := {}
  deriving DecidableEq, Repr, Inhabited

namespace Settings

/-- Settings that watch every millisecond and probe without a noticeable delay. -/
def brisk : Settings where
  stack := { interval := Span.ofMillis 1 }
  logs := { interval := Span.ofMillis 1 }
  health := { delay := Span.ofMillis 1 }

/-- Why settings cannot be used. -/
inductive Flaw where
  | noCapacity
  | stackSpins
  | logsSpin
  | noProgram
  deriving DecidableEq, Repr

/-- The value at fault and what it has to be. -/
def Flaw.message : Flaw → String
  | .noCapacity => "queue_capacity must be at least 1"
  | .stackSpins => "stack.poll_interval must be greater than zero"
  | .logsSpin => "logs.poll_interval must be greater than zero"
  | .noProgram => "deploy.program must not be empty"

/-- The first flaw of the settings, if they have any. -/
def validate (s : Settings) : Except Flaw Unit :=
  if s.capacity = 0 then .error .noCapacity
  else if s.stack.interval.isZero then .error .stackSpins
  else if s.logs.interval.isZero then .error .logsSpin
  else if Text.isBlankText s.deploy.program then .error .noProgram
  else .ok ()

end Settings

end DeployWatch
