/-
# Progress of a deployment

The deployment tool works through a stack step by step and says so in its output:

    app-stack |  3/12 | 10:41:07 AM | CREATE_COMPLETE | AWS::IAM::Role | Role

Only the counter in the first column after the name is read.  Every line of output becomes
an event, with the counter if the line has one; the last event of a run has no line and says
how the run ended.
-/

import DeployWatch.Deploy.Fault
import DeployWatch.Text.Blank
import DeployWatch.Text.Decimal

namespace DeployWatch

open DeployWatch.Text

/-- A step counter. -/
structure StepCount where
  current : Nat
  total : Nat
  deriving DecidableEq, Repr

namespace StepCount

/-- The counter that follows the first bar of a line: two runs of digits around a slash, in
white space, up to the next bar. -/
def read? (line : List Char) : Option StepCount :=
  match line.dropWhile (· ≠ '|') with
  | [] => none
  | _ :: column =>
    let column := column.dropWhile isBlank
    match column.dropWhile Char.isDigit with
    | '/' :: after =>
      match (after.dropWhile Char.isDigit).dropWhile isBlank with
      | '|' :: _ => do
        let current ← Decimal.below? Decimal.wordBound (column.takeWhile Char.isDigit)
        let total ← Decimal.below? Decimal.wordBound (after.takeWhile Char.isDigit)
        some ⟨current, total⟩
      | _ => none
    | _ => none

/-- The counter of a line. -/
def ofLine? (line : String) : Option StepCount := read? line.toList

end StepCount

/-- A report on a deployment run. -/
structure ProgressEvent where
  /-- The counter, if the line has one. -/
  step : Option StepCount := none
  /-- The lines of output reported here. -/
  lines : List String := []
  /-- Why the run failed; only the last event of a run has it. -/
  fault : Option DeployFault := none
  deriving DecidableEq, Repr, Inhabited

namespace ProgressEvent

/-- The event of a line of output. -/
def ofLine (line : String) : ProgressEvent := { step := StepCount.ofLine? line, lines := [line] }

/-- The last event of a run. -/
def finished (fault : Option DeployFault) : ProgressEvent := { fault }

/-- The event reports a failure. -/
def isFault (e : ProgressEvent) : Bool := e.fault.isSome

end ProgressEvent

end DeployWatch
