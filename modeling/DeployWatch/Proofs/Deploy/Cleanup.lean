/-
# The scratch directory of a deployment run

A run removes its scratch directory with its last step, when the tool has exited.  Until then the
tool may do anything with the files; what it leaves is what is tidied up.  When the removal comes
the last event has been queued, or the consumer has left (`DeployRun.CleansUp.late`).  What happens
to the files is seen by nobody: runs with other files or another scratch directory, or with none,
and on tools that do other things with the files, give the same events
(`DeployRun.alike_of_history`).

The main statement is `DeployRunner.tidies_up_on_every_path`.  It says what becomes of the files
when the tool cannot be started, too.  A path that ends in dots is the exception to the removal:
its directory is emptied and stays (`DeployRunner.scratch_in_dots_stays`).
-/

import DeployWatch.Deploy.Runner
import DeployWatch.Process.Scripted
import DeployWatch.Proofs.Deploy.History
import DeployWatch.Proofs.Deploy.Stream

namespace DeployWatch

open DeployWatch.Watch Net

namespace DeployRun

variable {v : View} {r r' r'' : DeployRun} {move : Move DeployRun ProgressEvent}
  {process : ProcessRun} {found files left : FileTree} {current : Location} {scratch : Option Path}
  {capacity : Nat} {log : List Happening} {n n' n'' m net : Net DeployRun ProgressEvent}

/-! ### The files in the end -/

/-- What becomes of the files when a run is over: its scratch directory is removed, if it has
one. -/
def Tidied (left : FileTree) (current : Location) (scratch : Option Path) (after : FileTree) :
    Prop :=
  match scratch with
  | some dir => FileTree.Removal left current dir after
  | none => after = left

/-- What is tried at the end of a run tidies up. -/
theorem tidied_replay (process : ProcessRun) (left : FileTree) (current : Location)
    (scratch : Option Path) :
    Tidied left current scratch (replay process current scratch left .removes) := by
  cases scratch with
  | some dir => exact FileTree.removal_of_path left current dir
  | none => rfl

/-- The files of a run that has ended are tidied up after the work of the tool and its exit. -/
theorem Recorded.tidied (recorded : Recorded process found current scratch log r)
    (ended : r.phase = .ended) :
    ∃ work now, log = work ++ [.exits now, .removes] ∧ Worked process.exitPause work now ∧
      Tidied (process.leaves (work.foldl (replay process current scratch) found)) current scratch
        r.files := by
  have reached := recorded.reached
  rw [ended] at reached
  obtain ⟨work, now, rfl, worked⟩ := reached
  refine ⟨work, now, rfl, worked, ?_⟩
  rw [recorded.files_eq, List.foldl_append]
  exact tidied_replay process _ _ _

/-! ### Nobody sees what happens to the files -/

/-- The run with other files, another directory to start from and another scratch directory, on a
tool that does other things with the files. -/
def relocate (r : DeployRun) (leaves : FileTree → FileTree) (files : FileTree)
    (current : Location) (scratch : Option Path) : DeployRun :=
  { r with leaves, files, current, scratch }

/-- Two runs that differ at most in what becomes of the files, in where they start and in their
scratch directory. -/
def Twin (r r' : DeployRun) : Prop :=
  ∃ leaves files current scratch, r' = r.relocate leaves files current scratch

theorem Twin.symm (twin : Twin r r') : Twin r' r := by
  obtain ⟨leaves, files, current, scratch, rfl⟩ := twin
  exact ⟨r.leaves, r.files, r.current, r.scratch, rfl⟩

theorem Twin.trans (twin : Twin r r') (twin' : Twin r' r'') : Twin r r'' := by
  obtain ⟨_, _, _, _, rfl⟩ := twin
  obtain ⟨leaves, files, current, scratch, rfl⟩ := twin'
  exact ⟨leaves, files, current, scratch, rfl⟩

/-- What a run can do, its twin can do, too, with the same event. -/
theorem Twin.turn (twin : Twin r r') (turn : Turn v r move) :
    ∃ move', Turn v r' move' ∧ Twin move.state move'.state ∧ move'.event = move.event := by
  obtain ⟨leaves, files, current, scratch, rfl⟩ := twin
  have same : ∀ s : DeployRun, Twin s (s.relocate leaves files current scratch) :=
    fun s => ⟨leaves, files, current, scratch, rfl⟩
  cases turn with
  | look ready =>
    refine ⟨_, .look ready, ⟨leaves, files, current, scratch, ?_⟩, rfl⟩
    change (r.relocate leaves files current scratch).read v.now = _
    rw [read_eq, read_eq]
    rfl
  | send line phase here room => exact ⟨_, .send line phase here room, same _, rfl⟩
  | leave line phase gone => exact ⟨_, .leave line phase gone, same _, rfl⟩
  | exit due lost phase expired =>
    exact ⟨_, .exit due lost phase expired, ⟨leaves, leaves files, current, scratch, rfl⟩, rfl⟩
  | exitUnheard due lost phase expired =>
    exact ⟨_, .exitUnheard due lost phase expired, ⟨leaves, leaves files, current, scratch, rfl⟩,
      rfl⟩
  | report event phase here room => exact ⟨_, .report event phase here room, same _, rfl⟩
  | skip event phase gone => exact ⟨_, .skip event phase gone, same _, rfl⟩
  | clean phase => exact ⟨_, .clean phase, ⟨leaves, _, current, scratch, rfl⟩, rfl⟩

/-- Two watches that are the same but for their runs, which are twins. -/
def Alike (n n' : Net DeployRun ProgressEvent) : Prop :=
  ∃ r', Twin n.task r' ∧ n' = { n with task := r' }

theorem Alike.symm (alike : Alike n n') : Alike n' n := by
  obtain ⟨r', twin, rfl⟩ := alike
  exact ⟨n.task, twin.symm, rfl⟩

theorem Alike.trans (alike : Alike n n') (alike' : Alike n' n'') : Alike n n'' := by
  obtain ⟨r', twin, rfl⟩ := alike
  obtain ⟨r'', twin', rfl⟩ := alike'
  exact ⟨r'', twin.trans twin', rfl⟩

/-- What a watch has nothing to do for, one that is alike has not, either. -/
theorem Alike.moves_eq_nil (alike : Alike n n') (idle : n.moves task = []) :
    n'.moves task = [] := by
  obtain ⟨r, twin, rfl⟩ := alike.symm
  apply List.eq_nil_iff_forall_not_mem.mpr
  intro move hm
  obtain ⟨move', turn, -, -⟩ := twin.turn (mem_moves_iff.mp hm)
  have able : move' ∈ ({ n' with task := r } : Net _ _).moves task := mem_moves_iff.mpr turn
  rw [idle] at able
  cases able

/-- What happens to a watch can happen to one that is alike. -/
theorem Alike.step (alike : Alike n n') (step : Step task n m) :
    ∃ m', Step task n' m' ∧ Alike m m' := by
  cases step with
  | task move hm =>
    obtain ⟨r', twin, rfl⟩ := alike
    obtain ⟨move', turn, twin', event⟩ := twin.turn (mem_moves_iff.mp hm)
    refine ⟨_, .task _ move' (mem_moves_iff.mpr turn), move'.state, twin', ?_⟩
    simp [take, event]
  | receive _ e here received =>
    obtain ⟨rest, hq, rfl⟩ := receive?_eq_some received
    obtain ⟨r', twin, rfl⟩ := alike
    exact ⟨_, .receive _ _ e here (receive?_of_queue hq), r', twin, rfl⟩
  | drop =>
    obtain ⟨r', twin, rfl⟩ := alike
    exact ⟨_, .drop _, r', twin, rfl⟩
  | cancel =>
    obtain ⟨r', twin, rfl⟩ := alike
    exact ⟨_, .cancel _, r', twin, rfl⟩
  | elapse now idle later h =>
    have idle' := alike.moves_eq_nil idle
    obtain ⟨r', twin, rfl⟩ := alike
    refine ⟨_, .elapse _ now idle' later ?_, r', twin, rfl⟩
    intro due timer
    apply h
    obtain ⟨leaves, files, current, scratch, rfl⟩ := twin
    exact timer

/-- Watches that are alike can go through the same steps. -/
theorem alike_of_steps (alike : Alike n n') (steps : Steps task n m) :
    ∃ m', Steps task n' m' ∧ Alike m m' := by
  induction steps with
  | refl => exact ⟨n', .refl n', alike⟩
  | tail _ step ih =>
    obtain ⟨b', run, alike'⟩ := ih
    obtain ⟨c', step', alike''⟩ := alike'.step step
    exact ⟨c', run.tail step', alike''⟩

/-- Whatever a tool does with the files, a watch on one that does nothing can go through the same
steps. -/
theorem alike_of_history (history : History net log n) : ∃ m, Steps task net m ∧ Alike n m := by
  induction history with
  | start => exact ⟨net, .refl net, _, ⟨_, _, _, _, rfl⟩, rfl⟩
  | step log n m before step ih =>
    obtain ⟨n', run, alike⟩ := ih
    obtain ⟨m', step', alike'⟩ := alike.step step
    exact ⟨m', run.tail step', alike'⟩
  | writes log n before running files ih =>
    obtain ⟨n', run, alike⟩ := ih
    refine ⟨n', run, Alike.trans ⟨_, ⟨_, _, _, _, rfl⟩, rfl⟩ alike⟩

/-- A watch whose run is fit is alike to none but such ones. -/
theorem Alike.fit (alike : Alike n n') (fit : n'.task.Fit) : n.task.Fit := by
  obtain ⟨r', ⟨leaves, files, current, scratch, rfl⟩, rfl⟩ := alike
  exact ⟨fit.sound, fit.waits⟩

/-- A run that has ended stays as it is. -/
theorem ended_of_step (step : Step task n m) (ended : n.task.phase = .ended) :
    m.task.phase = .ended := by
  rcases turn_of_step step with same | ⟨move, turn, rfl⟩
  · rw [same]
    exact ended
  · cases turn with
    | look ready =>
      rcases ready with phase | ⟨due, phase, -⟩ <;>
        (rw [ended] at phase; cases phase)
    | send _ phase | leave _ phase | exit _ _ phase | exitUnheard _ _ phase | report _ phase
    | skip _ phase | clean phase => rw [ended] at phase; cases phase

theorem ended_from {run : Run task n} {i j : Nat} (le : i ≤ j)
    (ended : (run.state i).task.phase = .ended) : (run.state j).task.phase = .ended :=
  Run.keeps_from (P := fun n : Net DeployRun ProgressEvent => n.task.phase = .ended)
    ended_of_step le ended

/-! ### Tidying up -/

/-- How the watch on a process deals with the files, whatever the tool does to them. -/
structure CleansUp (process : ProcessRun) (found : FileTree) (current : Location)
    (scratch : Option Path) (capacity : Nat) (net : Net DeployRun ProgressEvent) : Prop where
  /-- Nothing changes the files but what the tool does and the removal. -/
  files : ∀ log n, History net log n →
    n.task.files = log.foldl (replay process current scratch) found
  /-- The run waits once for the tool to exit, and for as long as it takes; then it tries once to
  remove the directory. -/
  ordered : ∀ log n, History net log n → Reached process.exitPause log n.task.phase
  /-- When the run has ended the scratch directory has been removed from what the tool left. -/
  tidied : ∀ log n, History net log n → n.task.phase = .ended →
    ∃ work now, log = work ++ [.exits now, .removes] ∧ Worked process.exitPause work now ∧
      Tidied (process.leaves (work.foldl (replay process current scratch) found)) current scratch
        n.task.files
  /-- A queue reads closed only when the run has ended. -/
  closed : ∀ log n, History net log n → n.isClosed task = true → n.task.phase = .ended
  /-- Before the removal the last event has been queued, or the consumer has left. -/
  late : ∀ log n, History net log n → n.task.phase = .cleaning ∨ n.task.phase = .ended →
    n.gone = true ∨ ∃ order, n.received ++ n.queue = report order process.exit
  /-- The run ends, whether its consumer stays or leaves. -/
  ends : ∀ log n, History net log n → ∀ run : Run task n, run.Draining ∨ run.Deserted →
    ∃ j, (run.state j).task.phase = .ended
  /-- The events are the same whatever becomes of the files and whatever the scratch directory
  is. -/
  unseen : ∀ log n, History net log n → ∀ leaves files current scratch, ∃ n',
    Steps task (Net.start (ofProcess { process with leaves } files current scratch) capacity false)
        n' ∧
      n'.received = n.received ∧ n'.queue = n.queue ∧ n'.gone = n.gone ∧
      n'.task.phase = n.task.phase

/-- Before a run removes its scratch directory it has reported all, unless nobody listens. -/
theorem exists_report_of_steps
    (steps : Steps task (Net.start (ofProcess process found current scratch) capacity false) n)
    (ceased : n.task.phase = .cleaning ∨ n.task.phase = .ended) :
    n.gone = true ∨ ∃ order, n.received ++ n.queue = report order process.exit := by
  obtain ⟨order, -, account, -⟩ := steps.keeps (fun step h => Reported.step step h)
    (reported_start process found current scratch capacity)
  by_cases gone : n.gone = true
  · exact .inl gone
  · have here : n.gone = false := by simpa using gone
    have isOver : n.task.isOver = true := by
      rcases ceased with phase | phase <;> simp [DeployRun.isOver, phase]
    have none_held : n.task.held = [] := by
      rcases ceased with phase | phase <;> simp [DeployRun.held, phase]
    obtain ⟨-, all⟩ := (account here).ceased isOver
    rw [none_held, List.append_nil] at all
    exact .inr ⟨order, all⟩

/-- A run with room for events ends, whether its consumer stays or leaves. -/
theorem exists_ended_of_fair (fit : n.task.Fit) (room : 0 < n.capacity) {run : Run task n}
    (fair : run.Draining ∨ run.Deserted) : ∃ j, (run.state j).task.phase = .ended := by
  rcases fair with draining | deserted
  · obtain ⟨i, closed⟩ := draining.exists_isClosed_of_forall responsive room
      fun i => acc (fit_of_steps (run.steps i) fit)
    simp only [isClosed, Bool.and_eq_true] at closed
    exact ⟨i, by simpa [task] using closed.2⟩
  · exact exists_ended deserted fit

/-- The watch on a process tidies up after it. -/
theorem cleansUp_start (process : ProcessRun) (found : FileTree) (current : Location)
    (scratch : Option Path) (capacity : Nat) :
    CleansUp process found current scratch capacity
      (Net.start (ofProcess process found current scratch) capacity false) where
  files log n history := (history.recorded (recorded_ofProcess _ _ _ _)).files_eq
  ordered log n history := (history.recorded (recorded_ofProcess _ _ _ _)).reached
  tidied log n history := (history.recorded (recorded_ofProcess _ _ _ _)).tidied
  closed log n history closed := by
    simp only [isClosed, Bool.and_eq_true] at closed
    simpa [task] using closed.2
  late log n history ceased := by
    obtain ⟨n', steps, r', ⟨leaves, files, current, scratch, rfl⟩, rfl⟩ := alike_of_history history
    have late := exists_report_of_steps steps
    exact late ceased
  ends log n history run fair := by
    obtain ⟨n', steps, alike⟩ := alike_of_history history
    have room : 0 < n'.capacity :=
      steps.keeps (P := fun m => 0 < m.capacity) (fun step room => step.capacity_eq ▸ room)
        (start_capacity_pos _ _ _)
    have fit : n.task.Fit := alike.fit (fit_of_steps steps (fit_ofProcess _ _ _ _))
    obtain ⟨r', -, rfl⟩ := alike
    exact exists_ended_of_fair fit room fair
  unseen log n history leaves files current' scratch' := by
    obtain ⟨m, steps, alike⟩ := alike_of_history history
    have start : Alike (Net.start (ofProcess process found current scratch) capacity false)
        (Net.start (ofProcess { process with leaves } files current' scratch') capacity false) :=
      ⟨_, ⟨leaves, files, current', scratch', rfl⟩, rfl⟩
    obtain ⟨n', steps', alike'⟩ := alike_of_steps start steps
    obtain ⟨r', ⟨_, _, _, _, rfl⟩, rfl⟩ := alike.trans alike'
    exact ⟨_, steps', rfl, rfl, rfl, rfl⟩

/-- If the tool does nothing before its exit the files are tidied up after its last deeds. -/
theorem CleansUp.tidied_of_steps (cleans : CleansUp process found current scratch capacity net)
    (steps : Steps task net n) (ended : n.task.phase = .ended) :
    Tidied (process.leaves found) current scratch n.task.files := by
  obtain ⟨log, history, idle⟩ := exists_history steps
  obtain ⟨work, now, rfl, ⟨since, told, -⟩, tidied⟩ := cleans.tidied log n history ended
  have work_eq : work = [.waits since] := by
    rw [milestones_append] at idle
    rw [← told]
    exact (List.append_cancel_right idle).symm
  rw [work_eq] at tidied
  exact tidied

end DeployRun

namespace DeployRunner

open DeployRun

variable {σ : Type}

/-- The files when the tool has just been started, or could not be. -/
def foundBy (d : DeployRunner σ) (w : Workshop σ) (dir : Path) (args : List String) : FileTree :=
  (d.launch w.launcher w.files (d.command dir args)).2.1

/-- The tool as it has been started, or why it could not be. -/
def started (d : DeployRunner σ) (w : Workshop σ) (dir : Path) (args : List String) :
    Except ProcessFault ProcessRun :=
  (d.launch w.launcher w.files (d.command dir args)).2.2

/-- The files as the tool leaves them, if it does nothing but its last deeds. -/
def leftBy (d : DeployRunner σ) (w : Workshop σ) (dir : Path) (args : List String) : FileTree :=
  match d.started w dir args with
  | .ok process => process.leaves (d.foundBy w dir args)
  | .error _ => d.foundBy w dir args

/-- **A run tidies up on every path.**  If the tool cannot be started its fault is reported, and
the scratch directory is removed at once.  Otherwise the tool may do anything with the files while
it runs; when it has exited, and has been waited for, the scratch directory is removed from what it
left, once and behind the last event or the consumer's leave, and the run ends; a queue that reads
closed tells that it has ended.  Without a scratch directory nothing is removed, and no event
depends on it or on the files. -/
theorem tidies_up_on_every_path (d : DeployRunner σ) (w : Workshop σ) (dir : Path)
    (args : List String) (scratch : Option Path) :
    (∀ fault, d.started w dir args = .error fault →
      (d.runWith w dir args scratch).2 = .error fault ∧
        Tidied (d.foundBy w dir args) w.current scratch
          (d.runWith w dir args scratch).1.files) ∧
    (∀ process, d.started w dir args = .ok process →
      ∃ net, (d.runWith w dir args scratch).2 = .ok net ∧
        (d.runWith w dir args scratch).1.files = d.foundBy w dir args ∧
        CleansUp process (d.foundBy w dir args) w.current scratch d.capacity net) := by
  unfold started foundBy runWith
  generalize d.launch w.launcher w.files (d.command dir args) = launched
  obtain ⟨launcher, found, result⟩ := launched
  constructor
  · intro fault failed
    have failed : result = .error fault := failed
    subst failed
    refine ⟨rfl, ?_⟩
    cases scratch with
    | some path => exact FileTree.removal_of_path found w.current path
    | none => rfl
  · intro process launched
    have launched : result = .ok process := launched
    subst launched
    exact ⟨_, rfl, rfl, cleansUp_start process found w.current scratch d.capacity⟩

/-- A scratch directory with a file in it, and another file. -/
def littered : FileTree :=
  ⟨[(["out"], .directory), (["out", "x"], .file []), (["keep"], .file [])]⟩

/-- A place with these files, in which the tool prints a line and fails, or is missing. -/
def bench (missing : Bool) : Workshop Script where
  launcher := ({} : Script).expect { program := "cdk", stdout := ["a"], exit := .code 3, missing }
  files := littered
  current := []

/-- A way of running the scripted tool. -/
def scripted : DeployRunner Script := { launch := Script.launcher, capacity := 0 }

/-- The same tool, but it takes a while to exit, and leaves two more files then. -/
def lingering : DeployRunner Script where
  launch s files c := ((s.start c).1, files, (s.start c).2.map fun process =>
    { process with
      exitPause := 5
      leaves := fun files => (files.put ["out", "late"] (.file [])).put ["log"] (.file []) })
  capacity := 0

/-- The scratch directory is gone and the other files are there, when the tool has failed after its
last deeds and its consumer has left, and when there is no tool. -/
theorem tidies_up_after_failing_tool :
    (∃ net n, (lingering.runWith (bench false) ⟨"."⟩ ["x"] (some ⟨"out"⟩)).2 = .ok net ∧
      Steps task net n ∧ n.gone = true ∧ n.task.files.existsAt [] ⟨"out"⟩ = false ∧
      n.task.files.get? ["keep"] = some (.file []) ∧
      n.task.files.get? ["log"] = some (.file [])) ∧
    (lingering.runWith (bench true) ⟨"."⟩ ["x"] (some ⟨"out"⟩)).2 =
      .error (.commandNotFound "cdk") ∧
    (lingering.runWith (bench true) ⟨"."⟩ ["x"] (some ⟨"out"⟩)).1.files.existsAt [] ⟨"out"⟩ =
      false := by
  have tidy : ∀ left after, left.locate [] ⟨"out"⟩ = .ok ["out"] →
      left.isDirectory ["out"] = true → Tidied left [] (some ⟨"out"⟩) after →
      after.existsAt [] ⟨"out"⟩ = false ∧
        ∀ other, ¬ ["out"] <+: other → after.get? other = left.get? other := by
    intro left after there dir removal
    cases removal with
    | nothing absent => simp [FileTree.isDirectoryPath, there, dir] at absent
    | removed place found _ _ nowhere _ beside =>
      rw [there, Except.ok.injEq] at found
      subst found
      exact ⟨nowhere, beside⟩
    | emptied _ _ dots => exact absurd dots (by decide +kernel)
  constructor
  · obtain ⟨net, running, -, cleans⟩ := (tidies_up_on_every_path lingering (bench false) ⟨"."⟩
      ["x"] (some ⟨"out"⟩)).2 _ rfl
    obtain ⟨run, deserted⟩ := exists_deserted net
    obtain ⟨j, ended⟩ := cleans.ends [] net .start run (.inr deserted)
    obtain ⟨i, gone⟩ := deserted.left
    have ended : (run.state (i + j)).task.phase = .ended := ended_from (by omega) ended
    have gone : (run.state (i + j)).gone = true := Run.gone_from (by omega) gone
    obtain ⟨removed, beside⟩ := tidy _ _ (by decide +kernel) (by decide +kernel)
      (cleans.tidied_of_steps (run.steps _) ended)
    refine ⟨net, _, running, run.steps _, gone, removed, ?_, ?_⟩
    · rw [beside ["keep"] (by decide)]
      decide +kernel
    · rw [beside ["log"] (by decide)]
      decide +kernel
  · obtain ⟨failed, removed⟩ := (tidies_up_on_every_path lingering (bench true) ⟨"."⟩ ["x"]
      (some ⟨"out"⟩)).1 _ rfl
    exact ⟨failed, (tidy _ _ rfl rfl removed).1⟩

/-- **A scratch directory whose path ends in dots stays.**  The run has ended and its queue reads
closed; what was in the directory is gone, but the directory is still there. -/
theorem scratch_in_dots_stays :
    littered.isDirectoryPath [] ⟨"out/."⟩ = true ∧
    ∃ net n, (scripted.runWith (bench false) ⟨"."⟩ ["x"] (some ⟨"out/."⟩)).2 = .ok net ∧
      Steps task net n ∧ n.task.phase = .ended ∧ n.isClosed task = true ∧
      n.task.files.isDirectoryPath [] ⟨"out/."⟩ = true ∧
      n.task.files.get? ["out", "x"] = none := by
  refine ⟨by decide +kernel, _, _, rfl, (Run.eager task rfl).steps 12, ?_⟩
  decide +kernel

end DeployRunner

end DeployWatch
