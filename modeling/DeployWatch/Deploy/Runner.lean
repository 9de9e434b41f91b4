/-
# Running the deployment tool

Starts the tool in the directory of the app and watches it.  A tool that cannot be started is
reported at once; its scratch directory is removed even then.
-/

import DeployWatch.Deploy.Run
import DeployWatch.Deploy.Scratch
import DeployWatch.Fault.Conversion
import DeployWatch.Settings.Basic
import DeployWatch.Watch.Consumer

namespace DeployWatch

open DeployWatch.Watch

/-- Everything that a deployment takes place in. -/
structure Workshop (σ : Type) where
  /-- The state of the launcher. -/
  launcher : σ
  files : FileTree
  /-- Where relative paths start. -/
  current : Location

/-- A way of running the deployment tool. -/
structure DeployRunner (σ : Type) where
  launch : Launcher σ
  tool : ToolSettings := {}
  /-- The bound on unread events. -/
  capacity : Nat := defaultCapacity
  /-- Tags for the names of fresh directories, tried in this order. -/
  tags : List String := []

namespace DeployRunner

variable {σ : Type}

/-- A watch on a deployment run. -/
abbrev RunNet := Net DeployRun ProgressEvent

/-- The command that starts the tool. -/
def command (d : DeployRunner σ) (dir : Path) (args : List String) : Command :=
  { program := d.tool.program, args, dir := some dir }

/-- Starts the tool and watches it.  The scratch directory, if there is one, is removed after
the run, or at once if the tool cannot be started. -/
def runWith (d : DeployRunner σ) (w : Workshop σ) (dir : Path) (args : List String)
    (scratch : Option Path) : Workshop σ × Except ProcessFault RunNet :=
  match d.launch w.launcher w.files (d.command dir args) with
  | (launcher, files, .ok process) =>
    ({ w with launcher, files },
      .ok (Net.start (DeployRun.ofProcess process files w.current scratch) d.capacity false))
  | (launcher, files, .error fault) =>
    let files := match scratch with
      | some dir => files.removeDirectoryIfPossible w.current dir
      | none => files
    ({ w with launcher, files }, .error fault)

/-- The request with the configured profile, unless it has one of its own. -/
def completed (d : DeployRunner σ) (r : DeployRequest) : DeployRequest :=
  { r with profile := r.profile.or d.tool.profile }

/-- Makes the scratch directory of a request and runs the tool for it. -/
def execute (d : DeployRunner σ) (w : Workshop σ) (r : DeployRequest) :
    Workshop σ × Except Fault RunNet :=
  let r := d.completed r
  match Scratch.prepare w.files w.current d.tags r with
  | (files, .error fault) => ({ w with files }, .error fault)
  | (files, .ok scratch) =>
    match d.runWith { w with files } r.dir (r.args scratch) (some scratch) with
    | (w, .ok net) => (w, .ok net)
    | (w, .error fault) => (w, .error fault.toFault)

/-- All events of a run that nobody disturbs, and the files after it.  What a run has still to do
says how often something has to happen; between two such things the clock may have to jump. -/
def collect (net : RunNet) : List ProgressEvent × FileTree :=
  let net := net.exhaust DeployRun.task (2 * (net.task.load + net.queue.length))
  (net.received, net.task.files)

/-- The longest that a consumer waits for an event, in milliseconds. -/
def patience : Nat := 86400000

/-- The first events of a run, and the files after the consumer has left and the run has
ended. -/
def takeFirst (net : RunNet) : Nat → List ProgressEvent × FileTree
  | 0 => ([], (net.drop.wait DeployRun.task 0).task.files)
  | n + 1 =>
    match net.await DeployRun.task patience with
    | (.event e, net) =>
      let (events, files) := takeFirst net n
      (e :: events, files)
    | (_, net) => ([], (net.drop.wait DeployRun.task 0).task.files)

end DeployRunner

end DeployWatch
