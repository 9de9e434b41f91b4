/-
# Faults of probing a service
-/

import DeployWatch.Cloud.Fault
import DeployWatch.Text.Decimal

namespace DeployWatch

open DeployWatch.Text

/-- Why a service is not taken to be healthy. -/
inductive HealthFault where
  /-- It failed every attempt. -/
  | timeout (endpoint : String) (attempts : Nat) (last : Option CloudFault)
  /-- It could not even be asked. -/
  | client (endpoint : String) (cause : CloudFault)
  deriving DecidableEq, Repr, Inhabited

namespace HealthFault

/-- The last failure, in brackets after a sentence. -/
def lastText : Option CloudFault → String
  | some fault => " (last error: " ++ fault.message ++ ")"
  | none => ""

/-- The fault in words. -/
def message : HealthFault → String
  | timeout endpoint attempts last =>
    endpoint ++ " did not become healthy after " ++ Decimal.text attempts ++ " attempts"
      ++ lastText last
  | client endpoint cause => "cannot reach " ++ endpoint ++ ": " ++ cause.message

/-- The fault with its cause, where there is one. -/
def chain (f : HealthFault) : List String :=
  match f with
  | client _ cause => [f.message, cause.message]
  | timeout .. => [f.message]

end HealthFault

end DeployWatch
