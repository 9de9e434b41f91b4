/-
# Probing a service

A service that was started a moment ago may need a while to answer.  It is asked a bounded
number of times, with a pause between two attempts, and taken to be healthy at its first good
answer.
-/

import DeployWatch.Health.Fault
import DeployWatch.Settings.Basic
import DeployWatch.Text.Literal
import DeployWatch.Time.Clock

namespace DeployWatch

open DeployWatch.Time

/-- A service with states in `σ`. -/
structure Service (σ : Type) where
  /-- The address under which it is known. -/
  endpoint : String
  /-- Asks the service at a time; gives the ticks that it takes and the answer. -/
  ask : Nat → σ → σ × Nat × Except CloudFault Unit

namespace Service

variable {σ : Type}

/-- How a probe ended: the service's state, the time, and the last failure if there was no
good answer. -/
structure Outcome (σ : Type) where
  state : σ
  time : Nat
  result : Except (Option CloudFault) Unit

/-- Asks up to so many times, with a pause before every attempt but the first. -/
def attempt (service : Service σ) (pause : Nat) :
    Nat → Bool → Nat → σ → Option CloudFault → Outcome σ
  | 0, _, now, s, last => ⟨s, now, .error last⟩
  | left + 1, isFirst, now, s, _ =>
    let asked := if isFirst then now else now + pause
    match service.ask asked s with
    | (s, latency, .ok ()) => ⟨s, asked + latency, .ok ()⟩
    | (s, latency, .error fault) =>
      attempt service pause left false (asked + latency) s (some fault)

/-- The number of attempts of a policy: at least one. -/
def attempts (policy : RetryPolicy) : Nat := max policy.count 1

/-- Asks until the service is healthy or the policy's attempts are used up, on some clock. -/
def waitUntilHealthy (service : Service σ) (policy : RetryPolicy) (s : σ)
    (clock : Clock := .millis) : σ × Nat × Except HealthFault Unit :=
  let outcome := service.attempt (clock.ticks policy.delay) (attempts policy) true 0 s none
  (outcome.state, outcome.time, match outcome.result with
    | .ok () => .ok ()
    | .error last => .error (.timeout service.endpoint (attempts policy) last))

end Service

/-- A client of a service that has been found healthy. -/
structure WorkflowClient where
  endpoint : String
  deriving DecidableEq, Repr

namespace WorkflowClient

/-- Waits for a service and makes its client, on some clock. -/
def connect {σ : Type} (service : Service σ) (policy : RetryPolicy) (s : σ)
    (clock : Clock := .millis) : σ × Nat × Except HealthFault WorkflowClient :=
  let (s, time, result) := service.waitUntilHealthy policy s clock
  (s, time, result.map fun () => ⟨service.endpoint⟩)

/-- A client as it is shown to developers. -/
def text (c : WorkflowClient) : String :=
  "WorkflowClient \x7b endpoint: " ++ Text.Literal.quoted c.endpoint ++ " \x7d"

end WorkflowClient

/-! ## Scripted services -/

/-- What a scripted service will answer. -/
inductive ServiceScript where
  /-- It fails so many times and then answers. -/
  | readyAfter (failures : Nat)
  /-- It never answers. -/
  | unreachable
  /-- It gives these answers, and good ones after them. -/
  | answers (list : List (Except CloudFault Unit))
  deriving Inhabited

/-- The state of a scripted service. -/
structure ScriptedService where
  script : ServiceScript
  /-- The ticks that the answers take; zero when there are no more. -/
  latencies : List Nat := []
  /-- The times at which it was asked, in their order. -/
  asked : List Nat := []

namespace ScriptedService

/-- The address of a scripted service that has none of its own. -/
def standardEndpoint : String := "http://mock-service"

/-- The answer to the question with a number, the first being number one. -/
def answerTo (script : ServiceScript) (n : Nat) : Except CloudFault Unit :=
  let refused := Except.error (CloudFault.unavailable
    ("connection refused (attempt " ++ Text.Decimal.text n ++ ")"))
  match script with
  | .readyAfter failures => if n > failures then .ok () else refused
  | .unreachable => refused
  | .answers list => list[n - 1]?.getD (.ok ())

/-- The scripted service at an address. -/
def service (endpoint : String) : Service ScriptedService where
  endpoint := endpoint
  ask now s :=
    let asked := s.asked ++ [now]
    ({ s with asked, latencies := s.latencies.drop 1 }, s.latencies.head?.getD 0,
      answerTo s.script asked.length)

end ScriptedService

end DeployWatch
