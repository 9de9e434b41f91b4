/-
# The state of a shell

What a running script can see and change: files, the current directory, its arguments and
variables, and where its descriptors lead.  What it writes to its pipes is collected in the
order of writing.
-/

import DeployWatch.Files.Tree
import DeployWatch.Shell.Syntax
import DeployWatch.Text.Decimal
import DeployWatch.Text.Utf8

namespace DeployWatch.Shell

open DeployWatch.Text

/-- Where a descriptor leads. -/
inductive Outlet where
  | stdout
  | stderr
  | nowhere
  | file (place : Location)
  /-- A text that is being captured. -/
  | buffer (index : Nat)
  deriving DecidableEq, Repr, Inhabited

/-- The state of a shell. -/
structure Session where
  files : FileTree
  /-- The current directory. -/
  current : Location
  /-- What the script is called. -/
  name : String
  args : List String
  vars : List (String × String)
  functions : List (String × Script)
  /-- The exit code of the last command. -/
  status : Nat
  /-- What is left to be read. -/
  input : List UInt8
  outlets : List (Nat × Outlet)
  /-- What has been written to the pipes, the newest first; true marks the error pipe. -/
  writes : List (Bool × List UInt8)
  /-- Texts being captured, by their index. -/
  buffers : List (Nat × List UInt8)
  /-- The line of the command that is being run. -/
  line : Nat
  /-- The shell leaves after a command that fails where nothing looks at its status. -/
  leavesOnFailure : Bool
  /-- Something looks at the status of the command that is being run. -/
  isCondition : Bool
  /-- What is run when a signal arrives; signal 0 stands for the end of the script. -/
  traps : List (Nat × String)
  deriving Inhabited

/-- How a command ends, as far as the commands after it are concerned. -/
inductive Flow where
  | proceed
  /-- The shell exits with a code. -/
  | leave (code : Nat)
  | killed (signal : Nat)
  /-- Leave so many loops. -/
  | breakLoop (levels : Nat)
  | continueLoop (levels : Nat)
  | returned
  deriving DecidableEq, Repr, Inhabited

namespace Session

/-- The identifier that `$$` stands for. -/
def processId : Nat := 4242

/-- A shell that is about to run a script. -/
def fresh (files : FileTree) (current : Location) (name : String) (args : List String)
    (vars : List (String × String)) : Session where
  files := files
  current := current
  name := name
  args := args
  vars := vars
  functions := []
  status := 0
  input := []
  outlets := [(0, .nowhere), (1, .stdout), (2, .stderr)]
  writes := []
  buffers := []
  line := 1
  leavesOnFailure := false
  isCondition := false
  traps := []

/-- The value of a variable; unset ones are empty. -/
def getVar (s : Session) (name : String) : String := (s.vars.lookup name).getD ""

/-- Sets a variable. -/
def setVar (s : Session) (name value : String) : Session :=
  { s with vars := (name, value) :: s.vars.filter (·.1 ≠ name) }

/-- Removes a variable. -/
def unsetVar (s : Session) (name : String) : Session :=
  { s with vars := s.vars.filter (·.1 ≠ name) }

/-- Sets the status. -/
def withStatus (s : Session) (status : Nat) : Session := { s with status }

/-- Connects a descriptor. -/
def connect (s : Session) (descriptor : Nat) (outlet : Outlet) : Session :=
  { s with outlets := (descriptor, outlet) :: s.outlets.filter (·.1 ≠ descriptor) }

/-- Writes bytes to where a descriptor leads. -/
def emit (s : Session) (descriptor : Nat) (bytes : List UInt8) : Session :=
  match s.outlets.lookup descriptor with
  | some .stdout => { s with writes := (false, bytes) :: s.writes }
  | some .stderr => { s with writes := (true, bytes) :: s.writes }
  | some (.file place) =>
    match s.files.get? place with
    | some (.file content) => { s with files := s.files.put place (.file (content ++ bytes)) }
    | _ => s
  | some (.buffer index) =>
    { s with buffers := s.buffers.map fun b => if b.1 = index then (index, b.2 ++ bytes) else b }
  | some .nowhere => s
  | none => s

/-- Writes a text to where a descriptor leads. -/
def emitText (s : Session) (descriptor : Nat) (text : String) : Session :=
  s.emit descriptor (Utf8.bytes text)

/-- Writes a line to the standard output. -/
def say (s : Session) (line : String) : Session := s.emitText 1 (line ++ "\n")

/-- Writes a complaint to the error output. -/
def complain (s : Session) (text : String) : Session := s.emitText 2 (text ++ "\n")

/-- Writes a complaint of the shell itself, with its name and the line. -/
def shellComplaint (s : Session) (text : String) : Session :=
  s.complain (s.name ++ ": " ++ Decimal.text s.line ++ ": " ++ text)

/-- Starts to capture a text. -/
def openBuffer (s : Session) : Session × Nat :=
  ({ s with buffers := (s.buffers.length, []) :: s.buffers }, s.buffers.length)

/-- The captured text. -/
def bufferContent (s : Session) (index : Nat) : List UInt8 := (s.buffers.lookup index).getD []

/-- The state after a command that ran beside this shell: what it did to files and outputs
stays, everything else is as before. -/
def afterChild (before child : Session) : Session :=
  { before with
    files := child.files
    writes := child.writes
    buffers := child.buffers.filter fun b => before.buffers.any (·.1 = b.1)
    status := child.status }

end Session

end DeployWatch.Shell
