/-
# The scripted launcher

A launcher that starts nothing.  It is told beforehand what each program will do; every start
uses up the oldest expectation for its program and is recorded, whether it finds one or not.
-/

import DeployWatch.Process.Running

namespace DeployWatch

/-- What a program will do when it is started. -/
structure Expectation where
  program : String
  stdout : List String := []
  stderr : List String := []
  exit : Exit := .success
  /-- The program is not found. -/
  missing : Bool := false
  deriving DecidableEq, Repr, Inhabited

/-- The process of an expectation. -/
def Expectation.process (e : Expectation) : ProcessRun where
  stdout := e.stdout.map .line
  stderr := e.stderr.map .line
  exit := .ok e.exit

/-- The expectations not yet used up, the oldest first, and the commands so far. -/
structure Script where
  pending : List Expectation := []
  history : List Command := []
  deriving DecidableEq, Repr, Inhabited

namespace Script

/-- Registers an expectation. -/
def expect (s : Script) (e : Expectation) : Script := { s with pending := s.pending ++ [e] }

/-- The oldest expectation for a program, and the others. -/
def take? (program : String) : List Expectation → Option (Expectation × List Expectation)
  | [] => none
  | e :: rest =>
    if e.program = program then some (e, rest)
    else (take? program rest).map fun found => (found.1, e :: found.2)

/-- The complaint about a command that nobody expected. -/
def complaint (c : Command) : String := "No expectation found for command: " ++ c.text

/-- Starts a command. -/
def start (s : Script) (c : Command) : Script × Except ProcessFault ProcessRun :=
  let history := s.history ++ [c]
  match take? c.program s.pending with
  | none => (⟨s.pending, history⟩, .error (.unscripted (complaint c)))
  | some (e, pending) =>
    (⟨pending, history⟩,
      if e.missing then .error (.commandNotFound c.program) else .ok e.process)

/-- A scripted process does nothing to the files. -/
theorem leaves_of_start {s : Script} {c : Command} {process : ProcessRun}
    (started : (s.start c).2 = .ok process) : process.leaves = id := by
  unfold start at started
  split at started
  · cases started
  · next e pending found =>
    by_cases missing : e.missing = true
    · simp [missing] at started
    · simp only [missing, Bool.false_eq_true, if_false, Except.ok.injEq] at started
      rw [← started]
      rfl

/-- The number of commands so far that started a program. -/
def countOf (s : Script) (program : String) : Nat := s.history.countP (·.program = program)

/-- The scripted launcher leaves the files alone. -/
def launcher : Launcher Script := fun s files c =>
  ((s.start c).1, files, (s.start c).2)

end Script

end DeployWatch
