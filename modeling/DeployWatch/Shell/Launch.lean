/-
# Starting programs

A host with a shell and the utilities that scripts use.  A program that is started runs to its
end among the files that it finds, without regard to what others do to them meanwhile.  What it
wrote to its pipes is then read line by line, and what it made of the files is seen when it has
exited.

The system refuses a command before anything runs if a text in it holds a null character, if
the directory to start in is not one, or if the program cannot be executed.  Files have no
permission to be executed.
-/

import DeployWatch.Process.Running
import DeployWatch.Shell.Run

namespace DeployWatch.Shell

open DeployWatch.Text

/-- A host: where relative paths start, and the environment of its programs. -/
structure Host where
  current : Location
  env : List (String × String)
  deriving Repr, Inhabited

/-- The directories that programs are looked for in. -/
def programDirectories : List Location := [["bin"], ["usr", "bin"]]

/-- A text holds a null character. -/
def hasNull (text : String) : Bool := text.toList.contains '\x00'

/-- A command holds a null character somewhere. -/
def Host.commandHasNull (c : Command) : Bool :=
  hasNull c.program || c.args.any hasNull || c.env.any (fun v => hasNull v.1 || hasNull v.2)
    || c.dir.any (fun d => hasNull d.text)

/-- The directory that a command starts in. -/
def Host.directoryOf (host : Host) (files : FileTree) (c : Command) :
    Except FileError Location := do
  match c.dir with
  | none => .ok host.current
  | some dir =>
    let place ← files.locate host.current dir
    if files.isDirectory place then .ok place else .error .notDirectory

/-- The name of the utility that a program stands for, looked up from a directory. -/
def resolveProgram (files : FileTree) (current : Location) (program : String) :
    Except FileError String := do
  let path := Path.mk program
  if program.toList.contains '/' then
    if path.isAbsolute && programDirectories.contains path.names.dropLast
        && isProgram path.baseName && !path.endsWithSlash then
      .ok path.baseName
    else
      let _ ← files.locate current path
      .error .denied
  else if isProgram program then .ok program
  else .error .notFound

/-- Runs a program that has been found. -/
def runFound (name : String) (args : List String) (s : Session) : Session × Flow :=
  match name, args with
  | "sh", "-c" :: source :: rest =>
    runToEnd source { s with name := rest.head?.getD "sh", args := rest.drop 1 }
  | "sh", file :: rest =>
    match s.files.contentOf s.current ⟨file⟩ with
    | .ok content =>
      runToEnd (String.ofList (Utf8.decode content)) { s with name := file, args := rest }
    | .error e =>
      let reason := match e with
        | .notFound => "No such file"
        | e => refusalText e
      let s := { s with line := 0 }
      ((s.shellComplaint ("cannot open " ++ file ++ ": " ++ reason)).withStatus 2,
        .proceed)
  | "sh", [] => (s, .proceed)
  | name, args => runProgram stepLimit name args s

/-- How a process ended whose shell ended in a certain way. -/
def exitOf (s : Session) : Flow → Exit
  | .killed signal => .signal signal
  | flow => .ofCode (endCode s flow)

/-- What one of the pipes delivers: the lines of everything written to it. -/
def pipeItems (s : Session) (isError : Bool) : List PipeItem :=
  (Lines.ofReads ((s.writes.reverse.filter (·.1 = isError)).map (·.2))).map .line

/-- Why a command cannot be started. -/
def spawnFault (c : Command) (directoryExists : Bool) (e : FileError) : ProcessFault :=
  if e = .notFound && directoryExists then .commandNotFound c.program
  else .spawnFailed c.text e.text

/-- Starts commands on a host. -/
def launch (host : Host) (files : FileTree) (c : Command) :
    FileTree × Except ProcessFault ProcessRun :=
  if Host.commandHasNull c then
    (files, .error (.spawnFailed c.text "nul byte found in provided data"))
  else match host.directoryOf files c with
    | .error e => (files, .error (spawnFault c false e))
    | .ok current =>
      match resolveProgram files current c.program with
      | .error e => (files, .error (spawnFault c true e))
      | .ok name =>
        let (s, flow) := runFound name c.args
          (Session.fresh files current name c.args (c.env ++ host.env))
        (files,
          .ok
            { stdout := pipeItems s false
              stderr := pipeItems s true
              exit := .ok (exitOf s flow)
              leaves := fun _ => s.files })

/-- The launcher of a host. -/
def launcher : Launcher Host := fun host files c => (host, launch host files c)

end DeployWatch.Shell
