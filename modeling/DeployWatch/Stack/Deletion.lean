/-
# Tracking the deletion of a stack

A deletion is requested once.  If the provider accepts, the status of the stack is asked for
again and again, the first time one interval after the request, until it says how the
deletion ended.  The watch carries exactly one event: that result.
-/

import DeployWatch.Cloud.Provider
import DeployWatch.Settings.Basic
import DeployWatch.Stack.Fault
import DeployWatch.Time.Clock
import DeployWatch.Watch.Poller

namespace DeployWatch

open DeployWatch.Watch DeployWatch.Time

/-- How a deletion ended. -/
structure DeletionResult where
  /-- What went wrong, if anything did. -/
  fault : Option DeletionFault := none
  deriving DecidableEq, Repr, Inhabited

namespace DeletionResult

/-- The stack is gone. -/
def success : DeletionResult := {}

/-- The stack is not gone. -/
def failure (fault : DeletionFault) : DeletionResult := ⟨some fault⟩

/-- The result of asking for the status of a stack that is being deleted. -/
def sampleOf : Except CloudFault StackStatus → Sample DeletionResult
  | .error fault => .finish (failure (.query fault))
  | .ok .deleteInProgress => .pending
  | .ok .deleteComplete => .finish success
  | .ok .deleteFailed => .finish (failure .failed)
  | .ok (.other name) => .finish (failure (.unexpectedStatus name))

end DeletionResult

/-- A control plane of stacks with states in `σ`. -/
structure StackControl (σ : Type) where
  /-- Requests a deletion. -/
  delete : String → σ → σ × Except CloudFault Unit
  /-- Asks for a status at a time; gives the ticks until the answer. -/
  ask : Nat → String → σ → σ × Nat
  /-- The answer to the last question. -/
  answer : String → σ → σ × Except CloudFault StackStatus

namespace StackControl

variable {σ : Type}

/-- Looks at a stack that is being deleted. -/
def sampler (control : StackControl σ) (stack : String) : Sampler σ DeletionResult where
  start now s := control.ask now stack s
  finish _ s :=
    let (s, status) := control.answer stack s
    (s, DeletionResult.sampleOf status)

/-- How the deletion of a stack is looked at. -/
def schedule (settings : StackSettings) (clock : Clock) : Schedule where
  interval := clock.ticks settings.interval
  delayFirst := true

/-- The task that tracks a deletion, on some clock. -/
def task (control : StackControl σ) (settings : StackSettings) (stack : String)
    (clock : Clock := .millis) : Task (Poller σ DeletionResult) DeletionResult :=
  Poller.task (control.sampler stack) (schedule settings clock)

/-- Requests the deletion of a stack and starts to watch it, unless the request is refused. -/
def track (control : StackControl σ) (stack : String) (capacity : Nat) (s : σ) :
    σ × Except CloudFault (Net (Poller σ DeletionResult) DeletionResult) :=
  match control.delete stack s with
  | (s, .error fault) => (s, .error fault)
  | (s, .ok ()) => (s, .ok (Net.start { sampler := s } capacity false))

end StackControl

/-! ## A scripted control plane -/

/-- A control plane that answers from a script; a script that has run out reports the
deletion as still going on. -/
structure StackScript where
  /-- Why deletions are refused, if they are. -/
  refusal : Option CloudFault := none
  statuses : List (Except CloudFault StackStatus) := []
  /-- The ticks that the queries take; zero when there are no more. -/
  latencies : List Nat := []
  /-- The deletions requested, in their order. -/
  deleted : List String := []
  /-- The times and stacks of the queries, in their order. -/
  asked : List (Nat × String) := []
  /-- The number of queries answered. -/
  answered : Nat := 0

namespace StackScript

/-- The scripted control plane. -/
def control : StackControl StackScript where
  delete stack s :=
    ({ s with deleted := s.deleted ++ [stack] }, match s.refusal with
      | some fault => .error fault
      | none => .ok ())
  ask now stack s :=
    ({ s with asked := s.asked ++ [(now, stack)], latencies := s.latencies.drop 1 },
      s.latencies.head?.getD 0)
  answer _ s :=
    ({ s with statuses := s.statuses.drop 1, answered := s.answered + 1 },
      s.statuses.head?.getD (.ok .deleteInProgress))

/-- Every query was about the same stack as the first deletion. -/
def sameStack (s : StackScript) : Bool :=
  s.asked.all fun q => s.deleted.head?.all (· = q.2)

end StackScript

/-! ## The provider's control plane -/

/-- The provider's replies to come. -/
structure StackReplies where
  delete : Provider.Reply Unit := .ok ()
  answers : List (Provider.Reply (List (Option String))) := []
  /-- The number of requests so far. -/
  requests : Nat := 0

/-- The control plane of a provider that gives these replies; when there are no more, it
refuses. -/
def StackReplies.control : StackControl StackReplies where
  delete _ s := ({ s with requests := s.requests + 1 }, Provider.deletionOf s.delete)
  ask _ _ s := ({ s with requests := s.requests + 1 }, 0)
  answer stack s :=
    ({ s with answers := s.answers.drop 1 },
      Provider.statusOf stack (s.answers.head?.getD (.error ⟨"", ""⟩)))

end DeployWatch
