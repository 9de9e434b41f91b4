/-
# A deployment run

The task behind a deployment.  It merges the two pipes of the tool and sends an event for
every line.  When both pipes have ended, a pipe cannot be read, or nobody listens any more,
it waits for the tool to exit, reports the outcome in a last event, and removes the scratch
directory; only then is the queue closed.

Until the tool exits it works among the same files.  A wait that fails tells nothing of the tool,
and counts as its exit.

The pipes take turns: they are asked alternately, the standard output first, and the turn
passes with every look at them until one of them has ended.  If the pipe whose turn it is has
nothing, the other one is asked.
-/

import DeployWatch.Deploy.Progress
import DeployWatch.Process.Running
import DeployWatch.Watch.Net

namespace DeployWatch

open DeployWatch.Watch

/-! ## Pipes -/

/-- A pipe that is being read. -/
structure Pipe where
  /-- What it has still to deliver. -/
  items : List PipeItem
  /-- The end of the pause that it is in. -/
  asleep : Option Nat := none
  deriving DecidableEq, Repr, Inhabited

/-- What a look at a pipe gives. -/
inductive PipeState where
  | line (text : String)
  | fault (f : ProcessFault)
  /-- Nothing yet. -/
  | pending
  /-- It has ended. -/
  | ended
  deriving DecidableEq, Repr, Inhabited

namespace Pipe

/-- Looks at a pipe that is in no pause.  A pause begins when it is come upon. -/
def next (now : Nat) : List PipeItem → Pipe × PipeState
  | [] => (⟨[], none⟩, .ended)
  | .line text :: rest => (⟨rest, none⟩, .line text)
  | .fault f :: rest => (⟨rest, none⟩, .fault f)
  | .pause 0 :: rest => next now rest
  | .pause ms :: rest => (⟨rest, some (now + ms)⟩, .pending)

/-- Looks at a pipe. -/
def poll (now : Nat) (p : Pipe) : Pipe × PipeState :=
  match p.asleep with
  | some due => if now < due then (p, .pending) else next now p.items
  | none => next now p.items

/-- How far a pipe is from its end.  An item counts twice, for a pause has to be come upon and to
pass. -/
def weight (p : Pipe) : Nat := 2 * p.items.length + if p.asleep.isSome then 1 else 0

end Pipe

/-! ## Both pipes together -/

/-- The two pipes of a tool, being merged. -/
structure Merge where
  stdout : Pipe
  stderr : Pipe
  /-- It is the turn of the error pipe. -/
  errorTurn : Bool := false
  stdoutEnded : Bool := false
  stderrEnded : Bool := false
  /-- The number of items taken from both. -/
  taken : Nat := 0
  deriving DecidableEq, Repr, Inhabited

namespace Merge

/-- Looks at one of the pipes. -/
def pollSide (now : Nat) (isError : Bool) (m : Merge) : Merge × PipeState :=
  let (pipe, state) := (if isError then m.stderr else m.stdout).poll now
  let ended := state == .ended
  let taken := match state with
    | .line _ => m.taken + 1
    | .fault _ => m.taken + 1
    | _ => m.taken
  (if isError then { m with stderr := pipe, stderrEnded := m.stderrEnded || ended, taken }
    else { m with stdout := pipe, stdoutEnded := m.stdoutEnded || ended, taken }, state)

/-- Looks at both pipes, if need be. -/
def poll (now : Nat) (m : Merge) : Merge × PipeState :=
  match m.stdoutEnded, m.stderrEnded with
  | true, true => (m, .ended)
  | true, false => m.pollSide now true
  | false, true => m.pollSide now false
  | false, false =>
    let side := m.errorTurn
    let (m, state) := { m with errorTurn := !side }.pollSide now side
    match state with
    | .line text => (m, .line text)
    | .fault f => (m, .fault f)
    | first =>
      let (m, state) := m.pollSide now !side
      (m, match first, state with
        | .pending, .ended => .pending
        | _, state => state)

/-- When the earlier of the pauses ends. -/
def wake? (m : Merge) : Option Nat :=
  match m.stdout.asleep, m.stderr.asleep with
  | some a, some b => some (min a b)
  | some a, none => some a
  | none, b => b

/-- How far both pipes are from their ends. -/
def weight (m : Merge) : Nat := m.stdout.weight + m.stderr.weight

end Merge

/-! ## The run -/

/-- What a run is about to do. -/
inductive RunPhase where
  /-- Look at the pipes. -/
  | reading
  /-- Wait until a pause of the pipes is over. -/
  | idle (due : Nat)
  /-- Send the event of a line. -/
  | sending (line : String)
  /-- Wait for the tool to exit. -/
  | exiting (due : Nat) (lost : Option DeployFault) (unheard : Bool)
  /-- Send the last event. -/
  | reporting (event : ProgressEvent)
  /-- Remove the scratch directory. -/
  | cleaning
  | ended
  deriving DecidableEq, Repr, Inhabited

/-- How far a phase is from the end of a run that reads no more.  An event to send counts more than
once, for it has still to be received when it is sent. -/
def RunPhase.weight : RunPhase → Nat
  | .sending _ => 8
  | .reading => 6
  | .idle _ => 5
  | .exiting _ _ _ => 4
  | .reporting _ => 3
  | .cleaning => 1
  | .ended => 0

/-- The state of a deployment run. -/
structure DeployRun where
  merge : Merge
  exit : Except ProcessFault Exit
  /-- The milliseconds between being waited for and exiting. -/
  exitPause : Nat
  /-- What the tool makes, with its last deeds, of the files among which it exits. -/
  leaves : FileTree → FileTree
  /-- The tool has exited. -/
  exited : Bool := false
  phase : RunPhase := .reading
  files : FileTree
  /-- Where relative paths start. -/
  current : Location
  /-- The directory to remove in the end. -/
  scratch : Option Path

namespace DeployRun

/-- The run of a process that has just been started. -/
def ofProcess (p : ProcessRun) (files : FileTree) (current : Location) (scratch : Option Path) :
    DeployRun where
  merge := { stdout := { items := p.stdout }, stderr := { items := p.stderr } }
  exit := p.exit
  exitPause := p.exitPause
  leaves := p.leaves
  files := files
  current := current
  scratch := scratch

/-- Why a tool that exited like this has failed, if it has. -/
def exitFault : Except ProcessFault Exit → Option DeployFault
  | .ok .success => none
  | .ok (.code n) => some (.exited n)
  | .ok (.signal n) => some (.signaled n)
  | .error f => some (.wait f.message)

/-- Why the run has failed, if it has: output that was lost counts more than the exit. -/
def outcome (r : DeployRun) (lost : Option DeployFault) : Option DeployFault :=
  match lost with
  | some fault => some fault
  | none => exitFault r.exit

/-- The run waits for the tool to exit. -/
def awaitExit (r : DeployRun) (now : Nat) (lost : Option DeployFault) (unheard : Bool) :
    DeployRun :=
  { r with phase := .exiting (now + r.exitPause) lost unheard }

/-- The tool exits. -/
def exits (r : DeployRun) : DeployRun := { r with files := r.leaves r.files, exited := true }

@[simp] theorem exits_merge (r : DeployRun) : r.exits.merge = r.merge := rfl

/-- The run after its scratch directory has been removed, if that was possible. -/
def clean (r : DeployRun) : DeployRun :=
  { r with
    phase := .ended
    files := match r.scratch with
      | some dir => r.files.removeDirectoryIfPossible r.current dir
      | none => r.files }

/-- The run after a look at the pipes. -/
def read (r : DeployRun) (now : Nat) : DeployRun :=
  let (merge, state) := r.merge.poll now
  let r := { r with merge }
  match state with
  | .line text => { r with phase := .sending text }
  | .fault f => r.awaitExit now (some (.output f.message)) false
  | .ended => r.awaitExit now none false
  | .pending => { r with phase := .idle (merge.wake?.getD now) }

/-- The steps that a run may take. -/
def moves (v : View) (r : DeployRun) : List (Move DeployRun ProgressEvent) :=
  match r.phase with
  | .reading => [{ state := r.read v.now }]
  | .idle due => if due ≤ v.now then [{ state := r.read v.now }] else []
  | .sending line =>
    if v.gone then [{ state := r.awaitExit v.now none true }]
    else if v.room then
      [{ state := { r with phase := .reading }, event := some (.ofLine line) }]
    else []
  | .exiting due lost unheard =>
    if due ≤ v.now then
      if unheard then [{ state := { r.exits with phase := .cleaning } }]
      else [{ state := { r.exits with phase := .reporting (.finished (r.outcome lost)) } }]
    else []
  | .reporting event =>
    if v.gone then [{ state := { r with phase := .cleaning } }]
    else if v.room then [{ state := { r with phase := .cleaning }, event := some event }]
    else []
  | .cleaning => [{ state := r.clean }]
  | .ended => []

/-- The timer that a run waits for. -/
def timer? (r : DeployRun) : Option Nat :=
  match r.phase with
  | .idle due => some due
  | .exiting due _ _ => some due
  | _ => none

/-- The task of a deployment run. -/
def task : Task DeployRun ProgressEvent where
  moves := moves
  timer? := timer?
  ended r := r.phase == .ended

/-- What a run has still to do, not counting what is queued. -/
def load (r : DeployRun) : Nat := 4 * r.merge.weight + r.phase.weight

end DeployRun

end DeployWatch
