/-
# Faults of a deployment run
-/

import DeployWatch.Text.Decimal

namespace DeployWatch

open DeployWatch.Text

/-- Why a deployment run failed after its tool was started. -/
inductive DeployFault where
  /-- The tool exited with a code other than zero. -/
  | exited (code : Int)
  /-- A signal ended the tool. -/
  | signaled (signal : Int)
  /-- The tool's output could not be read. -/
  | output (message : String)
  /-- The tool's exit could not be observed. -/
  | wait (message : String)
  deriving DecidableEq, Repr, Inhabited

namespace DeployFault

/-- The fault in words. -/
def message : DeployFault → String
  | exited code => "deployment tool exited with code " ++ Decimal.signedText code
  | signaled signal => "deployment tool terminated by signal " ++ Decimal.signedText signal
  | output message => "failed to read deployment tool output: " ++ message
  | wait message => "failed to wait for deployment tool: " ++ message

end DeployFault

end DeployWatch
