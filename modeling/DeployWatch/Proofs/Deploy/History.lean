/-
# What happens around a deployment run

While the tool is running it may change the files at any time and in any way.  `DeployRun.History`
tells what has happened to a watch by then, as far as it bears on the files: the tool has written
something, the run has begun to wait for the tool, the tool has exited, the scratch directory has
been removed.

These are the only changes of the files, so the files are what a replay of the history gives, and
they come in this order: the tool works until it exits, which it does when the run has waited for it
long enough, and the removal comes after its exit, once and as the last thing of all
(`DeployRun.Recorded`, kept by each turn of a run and by each change that the tool makes).
-/

import DeployWatch.Proofs.Deploy.Turns
import DeployWatch.Proofs.Files.Removal

namespace DeployWatch

open DeployWatch.Watch Net

/-- Something that happens around a deployment run. -/
inductive Happening where
  /-- The tool has changed the files, and these are the files now. -/
  | writes (files : FileTree)
  /-- The run begins to wait for the tool to exit. -/
  | waits (now : Nat)
  /-- The tool exits. -/
  | exits (now : Nat)
  /-- The run tries to remove its scratch directory, if it has one. -/
  | removes

/-- The tool is at work. -/
def Happening.isWork : Happening → Bool
  | .writes _ => true
  | _ => false

/-- The run waits for the tool to exit. -/
def RunPhase.isExiting : RunPhase → Bool
  | .exiting _ _ _ => true
  | _ => false

/-- The tool has exited in this phase or before it. -/
def RunPhase.isAfterExit : RunPhase → Bool
  | .reporting _ | .cleaning | .ended => true
  | _ => false

namespace DeployRun

variable {v : View} {r r' : DeployRun} {move : Move DeployRun ProgressEvent}
  {process : ProcessRun} {found files : FileTree} {current : Location} {scratch : Option Path}
  {pause now : Nat} {log : List Happening} {n m net : Net DeployRun ProgressEvent}

/-! ### Histories -/

/-- What happens in a step that leads from one state of a run to another. -/
def happened (now : Nat) (r r' : DeployRun) : List Happening :=
  (if r.phase.isExiting = false ∧ r'.phase.isExiting = true then [.waits now] else []) ++
  (if r.exited = false ∧ r'.exited = true then [.exits now] else []) ++
  (if r.phase ≠ .ended ∧ r'.phase = .ended then [.removes] else [])

/-- What has happened to a watch since it was started, the latest at the end.  Besides the watch
there is the tool, which may do anything with the files as long as it has not exited. -/
inductive History (net : Net DeployRun ProgressEvent) :
    List Happening → Net DeployRun ProgressEvent → Prop
  | start : History net [] net
  | step (log : List Happening) (n m : Net DeployRun ProgressEvent) (before : History net log n)
      (step : Step task n m) : History net (log ++ happened m.now n.task m.task) m
  | writes (log : List Happening) (n : Net DeployRun ProgressEvent) (before : History net log n)
      (running : n.task.exited = false) (files : FileTree) :
      History net (log ++ [.writes files]) { n with task := { n.task with files } }

/-- What becomes of the files when something happens. -/
def replay (process : ProcessRun) (current : Location) (scratch : Option Path)
    (files : FileTree) : Happening → FileTree
  | .writes changed => changed
  | .waits _ => files
  | .exits _ => process.leaves files
  | .removes =>
    match scratch with
    | some dir => files.removeDirectoryIfPossible current dir
    | none => files

/-- All that has happened but the work of the tool. -/
def milestones (log : List Happening) : List Happening := log.filter fun h => !h.isWork

/-- The tool did this work and exited then: the run began once to wait for it, and the time that
the tool takes to exit was over. -/
def Worked (pause : Nat) (work : List Happening) (now : Nat) : Prop :=
  ∃ since, milestones work = [.waits since] ∧ since + pause ≤ now

/-- How far things have come when a run is in some phase. -/
def Reached (pause : Nat) (log : List Happening) : RunPhase → Prop
  | .reading | .idle _ | .sending _ => milestones log = []
  | .exiting due _ _ => ∃ since, milestones log = [.waits since] ∧ since + pause = due
  | .reporting _ | .cleaning => ∃ work now, log = work ++ [.exits now] ∧ Worked pause work now
  | .ended => ∃ work now, log = work ++ [.exits now, .removes] ∧ Worked pause work now

theorem milestones_append (log more : List Happening) :
    milestones (log ++ more) = milestones log ++ milestones more :=
  List.filter_append _ _

/-- The work of the tool does not bring a run further. -/
theorem Reached.writes {phase : RunPhase} (reached : Reached pause log phase)
    (running : phase.isAfterExit = false) (files : FileTree) :
    Reached pause (log ++ [.writes files]) phase := by
  have same : milestones (log ++ [.writes files]) = milestones log := by
    rw [milestones_append]
    exact List.append_nil _
  cases phase with
  | reading | idle due | sending line => exact same.trans reached
  | exiting due lost unheard =>
    obtain ⟨since, told, le⟩ := reached
    exact ⟨since, same.trans told, le⟩
  | reporting event | cleaning | ended => cases running

/-! ### What a history tells of a run -/

/-- A history tells truly of a run on a process. -/
structure Recorded (process : ProcessRun) (found : FileTree) (current : Location)
    (scratch : Option Path) (log : List Happening) (r : DeployRun) : Prop where
  leaves_eq : r.leaves = process.leaves
  exitPause_eq : r.exitPause = process.exitPause
  current_eq : r.current = current
  scratch_eq : r.scratch = scratch
  files_eq : r.files = log.foldl (replay process current scratch) found
  exited_eq : r.exited = r.phase.isAfterExit
  reached : Reached process.exitPause log r.phase

theorem recorded_ofProcess (process : ProcessRun) (found : FileTree) (current : Location)
    (scratch : Option Path) :
    Recorded process found current scratch [] (ofProcess process found current scratch) where
  leaves_eq := rfl
  exitPause_eq := rfl
  current_eq := rfl
  scratch_eq := rfl
  files_eq := rfl
  exited_eq := rfl
  reached := rfl

/-- A history that tells truly of a run goes on to do so if it is right about the next step. -/
theorem Recorded.append {more : List Happening}
    (recorded : Recorded process found current scratch log r)
    (settled : r' = { r with
      merge := r'.merge, exited := r'.exited, phase := r'.phase, files := r'.files })
    (files : r'.files = more.foldl (replay process current scratch) r.files)
    (exited : r'.exited = r'.phase.isAfterExit)
    (reached : Reached process.exitPause (log ++ more) r'.phase) :
    Recorded process found current scratch (log ++ more) r' where
  leaves_eq := by rw [settled]; exact recorded.leaves_eq
  exitPause_eq := by rw [settled]; exact recorded.exitPause_eq
  current_eq := by rw [settled]; exact recorded.current_eq
  scratch_eq := by rw [settled]; exact recorded.scratch_eq
  files_eq := by rw [files, recorded.files_eq, List.foldl_append]
  exited_eq := exited
  reached := reached

/-- A run that begins to wait for the tool does so at this time. -/
theorem Recorded.awaits (recorded : Recorded process found current scratch log r)
    (listening : milestones log = []) (running : r.exited = false)
    (settled : r' = { r with merge := r'.merge, phase := r'.phase })
    (phase : ∃ lost unheard, r'.phase = .exiting (now + r.exitPause) lost unheard)
    (before : r.phase.isExiting = false) :
    Recorded process found current scratch (log ++ happened now r r') r' := by
  obtain ⟨lost, unheard, phase⟩ := phase
  have told : happened now r r' = [.waits now] := by
    have exited : r'.exited = r.exited := by rw [settled]
    have waiting : r'.phase.isExiting = true := by rw [phase]; rfl
    have going : r'.phase ≠ .ended := by rw [phase]; nofun
    simp [happened, before, waiting, going, exited, running]
  rw [told]
  refine recorded.append (by rw [settled]) (by rw [settled]; rfl) ?_ ?_
  · rw [phase, settled]
    exact running
  · rw [phase]
    refine ⟨now, ?_, by rw [recorded.exitPause_eq]⟩
    rw [milestones_append, listening]
    rfl

/-- A look at the pipes is told truly. -/
theorem Recorded.read (recorded : Recorded process found current scratch log r)
    (ready : r.phase = .reading ∨ ∃ due, r.phase = .idle due) :
    Recorded process found current scratch (log ++ happened now r (r.read now)) (r.read now) := by
  have listening : milestones log = [] := by
    have reached := recorded.reached
    rcases ready with phase | ⟨due, phase⟩ <;> rwa [phase] at reached
  have running : r.exited = false := by
    rw [recorded.exited_eq]
    rcases ready with phase | ⟨due, phase⟩ <;> rw [phase] <;> rfl
  have before : r.phase.isExiting = false := by
    rcases ready with phase | ⟨due, phase⟩ <;> rw [phase] <;> rfl
  have settled :
      r.read now = { r with merge := (r.read now).merge, phase := (r.read now).phase } := by
    rw [read_eq]
  have phase := read_phase now r
  cases given : (r.merge.poll now).2 with
  | fault f =>
    rw [given] at phase
    exact recorded.awaits listening running settled ⟨_, _, phase⟩ before
  | ended =>
    rw [given] at phase
    exact recorded.awaits listening running settled ⟨_, _, phase⟩ before
  | line text | pending =>
    rw [given] at phase
    have told : happened now r (r.read now) = [] := by
      simp [happened, phase, running, RunPhase.isExiting]
    rw [told]
    refine recorded.append (by rw [read_eq]) (read_files _ _) ?_ ?_
    · rw [phase, read_exited]
      exact running
    · rw [phase, List.append_nil]
      exact listening

/-- The exit of the tool is told truly. -/
theorem Recorded.exits (recorded : Recorded process found current scratch log r) {due : Nat}
    {lost : Option DeployFault} {unheard : Bool} (phase : r.phase = .exiting due lost unheard)
    (expired : due ≤ now) {next : RunPhase} (after : next = .cleaning ∨ ∃ e, next = .reporting e) :
    Recorded process found current scratch (log ++ happened now r { r.exits with phase := next })
      { r.exits with phase := next } := by
  have exited := recorded.exited_eq
  have reached := recorded.reached
  rw [phase] at exited reached
  obtain ⟨since, told, past⟩ := reached
  have worked : Worked process.exitPause log now := ⟨since, told, by omega⟩
  have running : r.exited = false := exited
  have told : happened now r { r.exits with phase := next } = [.exits now] := by
    rcases after with rfl | ⟨e, rfl⟩ <;>
      simp [happened, phase, running, DeployRun.exits, RunPhase.isExiting]
  rw [told]
  refine recorded.append rfl ?_ ?_ ?_
  · simp [DeployRun.exits, replay, recorded.leaves_eq]
  · rcases after with rfl | ⟨e, rfl⟩ <;> rfl
  · rcases after with rfl | ⟨e, rfl⟩ <;> exact ⟨log, now, rfl, worked⟩

/-- The removal is told truly. -/
theorem Recorded.clean (recorded : Recorded process found current scratch log r)
    (phase : r.phase = .cleaning) :
    Recorded process found current scratch (log ++ happened now r r.clean) r.clean := by
  have exited := recorded.exited_eq
  have reached := recorded.reached
  rw [phase] at exited reached
  obtain ⟨work, exit, rfl, worked⟩ := reached
  have told : happened now r r.clean = [.removes] := by
    have same : r.clean.exited = r.exited := rfl
    have ended : r.clean.phase = .ended := rfl
    simp [happened, phase, same, ended, RunPhase.isExiting]
  rw [told]
  refine recorded.append rfl ?_ exited ?_
  · rw [DeployRun.clean, recorded.scratch_eq, recorded.current_eq]
    rfl
  · exact ⟨work, exit, by simp, worked⟩

/-- The end of the sending is told truly. -/
theorem Recorded.reports (recorded : Recorded process found current scratch log r)
    {e : ProgressEvent} (phase : r.phase = .reporting e) :
    Recorded process found current scratch (log ++ happened now r { r with phase := .cleaning })
      { r with phase := .cleaning } := by
  have exited := recorded.exited_eq
  have reached := recorded.reached
  rw [phase] at exited reached
  have told : happened now r { r with phase := .cleaning } = [] := by
    simp [happened, phase, RunPhase.isExiting]
  rw [told]
  exact recorded.append rfl rfl exited (by rw [List.append_nil]; exact reached)

/-- Every turn is told truly. -/
theorem Recorded.turn (recorded : Recorded process found current scratch log r)
    (turn : Turn v r move) :
    Recorded process found current scratch (log ++ happened v.now r move.state) move.state := by
  have exited := recorded.exited_eq
  have reached := recorded.reached
  cases turn with
  | look ready =>
    apply recorded.read
    rcases ready with phase | ⟨due, phase, -⟩
    · exact .inl phase
    · exact .inr ⟨due, phase⟩
  | send line phase =>
    rw [phase] at exited reached
    have told : happened v.now r { r with phase := .reading } = [] := by
      simp [happened, phase, RunPhase.isExiting]
    rw [told]
    exact recorded.append rfl rfl exited (by rw [List.append_nil]; exact reached)
  | leave line phase =>
    rw [phase] at exited reached
    exact recorded.awaits reached exited rfl ⟨_, _, rfl⟩ (by rw [phase]; rfl)
  | exit due lost phase expired => exact recorded.exits phase expired (.inr ⟨_, rfl⟩)
  | exitUnheard due lost phase expired => exact recorded.exits phase expired (.inl rfl)
  | report event phase | skip event phase => exact recorded.reports phase
  | clean phase => exact recorded.clean phase

/-- What the tool writes is told truly. -/
theorem Recorded.writes (recorded : Recorded process found current scratch log r)
    (running : r.exited = false) (files : FileTree) :
    Recorded process found current scratch (log ++ [.writes files]) { r with files } := by
  have before : r.phase.isAfterExit = false := by rw [← recorded.exited_eq, running]
  exact recorded.append rfl rfl recorded.exited_eq (recorded.reached.writes before files)

/-- **A history tells truly of the run that is watched.** -/
theorem History.recorded (history : History net log n)
    (start : Recorded process found current scratch [] net.task) :
    Recorded process found current scratch log n.task := by
  induction history with
  | start => exact start
  | step log n m before step ih =>
    rcases turn_of_step step with same | ⟨move, turn, rfl⟩
    · have told : happened m.now n.task m.task = [] := by simp [happened, same]
      rw [told, List.append_nil, same]
      exact ih
    · exact ih.turn turn
  | writes log n before running files ih => exact ih.writes running files

/-- A tool that does nothing before its exit has a history, too. -/
theorem exists_history (steps : Steps task net n) :
    ∃ log, History net log n ∧ milestones log = log := by
  induction steps with
  | refl => exact ⟨[], .start, rfl⟩
  | @tail b c run step ih =>
    obtain ⟨log, history, idle⟩ := ih
    refine ⟨_, history.step _ _ _ step, ?_⟩
    have told : milestones (happened c.now b.task c.task) = happened c.now b.task c.task := by
      unfold happened milestones
      split_ifs <;> rfl
    rw [milestones_append, idle, told]

end DeployRun

end DeployWatch
