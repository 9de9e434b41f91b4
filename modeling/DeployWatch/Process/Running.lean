/-
# Running processes

A process that has been started is known by what will come out of it: the items of its two
pipes, each after the pause in front of it, its exit, and what it will have made of the files by
then.  A launcher starts commands; it may have a state of its own and change the files.
-/

import DeployWatch.Files.Tree
import DeployWatch.Process.Command
import DeployWatch.Process.Fault

namespace DeployWatch

/-- Something that a pipe delivers. -/
inductive PipeItem where
  | line (text : String)
  /-- Nothing for so many milliseconds. -/
  | pause (ms : Nat)
  /-- The pipe cannot be read any more. -/
  | fault (f : ProcessFault)
  deriving DecidableEq, Repr, Inhabited

/-- A process that has been started. -/
structure ProcessRun where
  stdout : List PipeItem := []
  stderr : List PipeItem := []
  /-- How it ends, or why that cannot be observed. -/
  exit : Except ProcessFault Exit := .ok .success
  /-- The milliseconds between being waited for and ending. -/
  exitPause : Nat := 0
  /-- What it makes, with its last deeds, of the files among which it ends. -/
  leaves : FileTree → FileTree := id

/-- The lines among items. -/
def PipeItem.lines (items : List PipeItem) : List String :=
  items.filterMap fun item => match item with
    | .line text => some text
    | _ => none

/-- Starts a command among the files that it finds.  The result holds the state after it, the
files as they are when the process has just been started, or could not be, and the process. -/
abbrev Launcher (σ : Type) :=
  σ → FileTree → Command → σ × FileTree × Except ProcessFault ProcessRun

end DeployWatch
