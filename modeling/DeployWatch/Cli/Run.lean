/-
# Running the program

A command line is read, the settings are loaded, and the command is run.  What the program
reports is the text on its two outputs and its exit code, which is fixed by the category of
the fault that ended the command, if one did.
-/

import DeployWatch.Cli.Invocation
import DeployWatch.Deploy.Runner
import DeployWatch.Fault.Conversion
import DeployWatch.Health.Http
import DeployWatch.Settings.Load
import DeployWatch.Shell.Launch

namespace DeployWatch.Cli

/-- What the program leaves behind. -/
structure Report where
  exitCode : Nat
  stdout : String := ""
  stderr : String := ""
  deriving DecidableEq, Repr, Inhabited

namespace Report

/-- The report of a command that succeeded. -/
def success : Report := { exitCode := 0 }

/-- The report of a command that failed. -/
def ofFault (f : Fault) : Report where
  exitCode := f.exitCode
  stderr := "Error: " ++ f.alternate ++ "\n" ++ match f.hint? with
    | some hint => "Hint: " ++ hint ++ "\n"
    | none => ""

/-- The exit code for command lines that make no sense. -/
def usageExit : Nat := 2

/-- The report of a command line that leads to no command. -/
def ofStop : Stop → Report
  | .help c => { exitCode := 0, stdout := c.helpPage }
  | .version => { exitCode := 0, stdout := programName ++ " " ++ version ++ "\n" }
  | .idle c => { exitCode := usageExit, stderr := c.helpPage }
  | .usage c fault =>
    { exitCode := usageExit
      stderr := "error: " ++ fault.message c ++ "\n\n" ++ c.usage
        ++ "\n\nFor more information, try '--help'.\n" }

end Report

/-! ## Commands -/

/-- The fault of a command that this build of the program cannot run. -/
def providerMissing (command : String) : Fault :=
  .config ("`" ++ programName ++ " " ++ command
    ++ "` needs AWS support; rebuild with `--features aws`")

/-- The failure that the events of a run report: the last one, if there are several. -/
def failureOf (events : List ProgressEvent) : Option DeployFault :=
  (events.filterMap (·.fault)).getLast?

/-- Runs the deployment tool and follows it to its end. -/
def deploy {σ : Type} (runner : DeployRunner σ) (workshop : Workshop σ) (request : DeployRequest) :
    FileTree × Except Fault Unit :=
  match runner.execute workshop request with
  | (workshop, .error fault) => (workshop.files, .error fault)
  | (_, .ok net) =>
    let (events, files) := DeployRunner.collect net
    (files, match failureOf events with
      | some fault => .error fault.toFault
      | none => .ok ())

/-- Probes a service until it is healthy. -/
def probe (endpoint : String) (policy : RetryPolicy) : Except Fault Unit :=
  let service := HttpService.unreachable endpoint
  match (WorkflowClient.connect service policy ()).2.2 with
  | .ok _ => .ok ()
  | .error fault => .error fault.toFault

/-- Runs a task with settings. -/
def runTask {σ : Type} (launch : Launcher σ) (launcher : σ) (tags : List String)
    (around : Surroundings) (settings : Settings) : Task → FileTree × Except Fault Unit
  | .deploy request =>
    deploy { launch, tool := settings.deploy, capacity := settings.capacity, tags }
      { launcher, files := around.files, current := around.current } request
  | .deleteStack .. => (around.files, .error (providerMissing "stack delete"))
  | .followLogs .. => (around.files, .error (providerMissing "logs"))
  | .probe endpoint => (around.files, probe endpoint settings.health)

/-- Loads the settings and runs a task. -/
def runInvocation {σ : Type} (launch : Launcher σ) (launcher : σ) (tags : List String)
    (around : Surroundings) (own : Option Path) (invocation : Invocation) :
    FileTree × Except Fault Unit :=
  match Settings.load around invocation.config own with
  | .error fault => (around.files, .error fault.toFault)
  | .ok settings => runTask launch launcher tags around settings invocation.task

/-- Runs the program for a user with a settings file at some place; gives the files after it and
its report. -/
def runWith {σ : Type} (launch : Launcher σ) (launcher : σ) (tags : List String)
    (around : Surroundings) (args : List String)
    (own : Option Path := Settings.defaultPath? around.env) : FileTree × Report :=
  match Invocation.read args with
  | .error stop => (around.files, .ofStop stop)
  | .ok invocation =>
    match runInvocation launch launcher tags around own invocation with
    | (files, .ok ()) => (files, .success)
    | (files, .error fault) => (files, .ofFault fault)

/-- Runs the program on a host with a shell. -/
def run (tags : List String) (around : Surroundings) (args : List String) : FileTree × Report :=
  runWith Shell.launcher ⟨around.current, around.env⟩ tags around args

end DeployWatch.Cli
