/-
# Commands and exits
-/

import DeployWatch.Files.Path

namespace DeployWatch

/-- A command line to be started, with its environment and directory. -/
structure Command where
  program : String
  args : List String := []
  /-- Variables added to the environment. -/
  env : List (String × String) := []
  /-- The directory to start in, unless it is the current one. -/
  dir : Option Path := none
  deriving DecidableEq, Repr, Inhabited

namespace Command

/-- The command with more arguments. -/
def withArgs (c : Command) (args : List String) : Command := { c with args := c.args ++ args }

/-- The command in another directory. -/
def inDirectory (c : Command) (dir : Path) : Command := { c with dir := some dir }

/-- The command line as text. -/
def text (c : Command) : String := String.intercalate " " (c.program :: c.args)

end Command

/-- How a process ended. -/
inductive Exit where
  | success
  /-- It exited with a code other than zero. -/
  | code (n : Int)
  | signal (n : Int)
  deriving DecidableEq, Repr, Inhabited

namespace Exit

/-- The exit that a code stands for. -/
def ofCode (n : Int) : Exit := if n = 0 then success else code n

/-- The process succeeded. -/
def isSuccess (e : Exit) : Bool := e == success

/-- The exit code, unless a signal ended the process. -/
def code? : Exit → Option Int
  | success => some 0
  | code n => some n
  | signal _ => none

end Exit

end DeployWatch
