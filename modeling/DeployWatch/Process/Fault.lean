/-
# Faults of starting and reading a process
-/

namespace DeployWatch

/-- Why a process could not be started or followed. -/
inductive ProcessFault where
  /-- There is no program of this name. -/
  | commandNotFound (program : String)
  /-- The system refused to start a command line. -/
  | spawnFailed (command reason : String)
  /-- The output of a command line could not be read. -/
  | outputLost (command reason : String)
  | internal (message : String)
  /-- A scripted host was not prepared for the command. -/
  | unscripted (message : String)
  deriving DecidableEq, Repr, Inhabited

namespace ProcessFault

/-- The fault in words. -/
def message : ProcessFault → String
  | commandNotFound program => "Command not found: " ++ program
  | spawnFailed command reason => "Failed to spawn '" ++ command ++ "': " ++ reason
  | outputLost command reason => "IO error while running '" ++ command ++ "': " ++ reason
  | internal message => "Internal error: " ++ message
  | unscripted message => "Mock expectation not met: " ++ message

/-- The fault with the system's reason behind it, where there is one. -/
def chain (f : ProcessFault) : List String :=
  match f with
  | spawnFailed _ reason => [f.message, reason]
  | outputLost _ reason => [f.message, reason]
  | _ => [f.message]

end ProcessFault

end DeployWatch
