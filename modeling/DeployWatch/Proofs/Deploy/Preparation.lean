/-
# A use of the deployment tool from its scratch directory on

What is known of the scratch directory of a request is said once, here: which path it has, that the
path leads to a directory, and that nothing was done to the files but to add directories on the way
to it (`Scratch.Prepared`).

`DeployRunner.Leaves` says which files there can be when the use of the tool is over, because no
scratch directory could be made, because the tool could not be started, or because the run has
ended.  In the first case they are the files after the attempt to make the directory; else they are
those that the tool has left, after the attempt to remove it (`DeployRunner.leaves_cases`).
-/

import DeployWatch.Proofs.Deploy.Cleanup
import DeployWatch.Proofs.Files.Making

namespace DeployWatch

open DeployWatch.Watch Net

/-! ### The scratch directory of a request -/

namespace Scratch

variable {t made : FileTree} {current : Location} {tags : List String} {r : DeployRequest}
  {scratch dir : Path} {fault : Fault}

/-- What is known of the scratch directory of a request once it is made. -/
structure Prepared (t : FileTree) (current : Location) (r : DeployRequest) (made : FileTree)
    (scratch : Path) : Prop where
  /-- Directories on the way to it are the only change. -/
  grown : t.Grown (FileTree.OnWay current scratch) made
  /-- Its path leads to it. -/
  leads : scratch.text.isEmpty = false → made.isDirectoryPath current scratch = true
  /-- It is the one that the request names. -/
  named : ∀ output, r.output = some output → scratch = Scratch.named r output
  /-- If the request names none it is new, and its path starts at the root. -/
  fresh : r.output = none → scratch.isAbsolute = true ∧ t.Adds current scratch made
  /-- If it is the only directory that was missing it is the only one that was made. -/
  single : ∀ output single, r.output = some output →
    t.makeDirectory current (Scratch.named r output) = .ok single → made = single

/-- The directory that a request names is the one its name leads to from the app. -/
theorem aim_named {app : Location} (there : t.locate current r.dir = .ok app) (output : Path) :
    FileTree.aim current (named r output) = FileTree.aim app output := by
  unfold named
  split
  · next absolute =>
    unfold FileTree.aim FileTree.start
    rw [absolute, if_pos rfl, if_pos rfl]
  · rw [FileTree.aim_join, ← FileTree.aim_of_locate there]

/-- Every path seen from the root starts there. -/
theorem isAbsolute_absolute (current : Location) (p : Path) :
    (absolute current p).isAbsolute = true := by
  have root : (Path.ofNames true current).isAbsolute = true := by
    simp [Path.isAbsolute, Path.ofNames]
  unfold absolute
  rw [Path.isAbsolute_join, root, Bool.or_true]

/-- A fresh directory is new, and its path starts at the root. -/
theorem fresh_of_makeFresh (h : makeFresh t current dir tags = (made, .ok scratch)) :
    scratch.isAbsolute = true ∧ t.Adds current scratch made := by
  induction tags with
  | nil => cases h
  | cons tag tags ih =>
    unfold makeFresh at h
    simp only at h
    split at h
    · next after done =>
      obtain ⟨rfl, eq⟩ := Prod.mk.inj h
      obtain rfl := Except.ok.inj eq
      refine ⟨?_, FileTree.adds_of_makeDirectory done⟩
      rw [Path.isAbsolute_join, isAbsolute_absolute, Bool.or_true]
    · exact ih h
    · cases h

/-- Where no fresh directory can be made nothing is changed. -/
theorem eq_of_makeFresh_error (h : makeFresh t current dir tags = (made, .error fault)) :
    made = t := by
  induction tags with
  | nil => exact (Prod.mk.inj h).1.symm
  | cons tag tags ih =>
    unfold makeFresh at h
    simp only at h
    split at h
    · cases h
    · exact ih h
    · exact (Prod.mk.inj h).1.symm

/-- What is known of a scratch directory that was made. -/
theorem prepared_of_prepare (h : prepare t current tags r = (made, .ok scratch)) :
    Prepared t current r made scratch := by
  unfold prepare at h
  cases unset : r.output with
  | none =>
    simp only [unset] at h
    obtain ⟨absolute, adds⟩ := fresh_of_makeFresh h
    refine ⟨adds.grown, fun _ => adds.isDirectoryPath, ?_, fun _ => ⟨absolute, adds⟩, ?_⟩
    · intro output hr
      rw [unset] at hr
      cases hr
    · intro output single hr
      rw [unset] at hr
      cases hr
  | some output =>
    have makes := FileTree.makes_makeDirectories t current (named r output)
    simp only [unset] at h
    split at h
    · next after done =>
      rw [done] at makes
      obtain ⟨rfl, eq⟩ := Prod.mk.inj h
      obtain rfl := Except.ok.inj eq
      refine ⟨makes.grown, makes.leads rfl, ?_, ?_, ?_⟩
      · intro output' hr
        rw [unset, Option.some.injEq] at hr
        rw [hr]
      · intro hr
        rw [unset] at hr
        cases hr
      · intro output' single hr made_single
        rw [unset, Option.some.injEq] at hr
        rw [← hr] at made_single
        have once := FileTree.makeDirectories_of_makeDirectory made_single
        rw [done] at once
        exact (Prod.mk.inj once).1
    · cases h

/-- What an attempt to make a scratch directory has left behind: nothing, or directories on the
way to the one that the request names. -/
theorem grown_of_prepare_error (h : prepare t current tags r = (made, .error fault)) :
    (r.output = none → made = t) ∧ ∀ output, r.output = some output →
      t.Grown (FileTree.OnWay current (named r output)) made ∧
        ∀ after, t.makeDirectory current (named r output) ≠ .ok after := by
  unfold prepare at h
  cases unset : r.output with
  | none =>
    simp only [unset] at h
    exact ⟨fun _ => eq_of_makeFresh_error h, nofun⟩
  | some output =>
    refine ⟨nofun, ?_⟩
    intro output' same
    obtain rfl := Option.some.inj same
    have makes := FileTree.makes_makeDirectories t current (named r output)
    simp only [unset] at h
    split at h
    · cases h
    · next after e failed =>
      obtain ⟨rfl, -⟩ := Prod.mk.inj h
      have grown := makes.grown
      rw [failed] at grown
      refine ⟨grown, ?_⟩
      intro single done
      rw [FileTree.makeDirectories_of_makeDirectory done] at failed
      cases failed

end Scratch

/-! ### The files in the end -/

namespace DeployRunner

open DeployRun

variable {σ : Type} {d : DeployRunner σ} {w : Workshop σ} {r : DeployRequest}
  {made after : FileTree} {scratch : Path}

/-- The scratch directory of a request, or why it could not be made, and the files then. -/
def prepared (d : DeployRunner σ) (w : Workshop σ) (r : DeployRequest) :
    FileTree × Except Fault Path :=
  Scratch.prepare w.files w.current d.tags (d.completed r)

/-- A request has one scratch directory. -/
theorem prepared_inj {made' : FileTree} {scratch' : Path} (h : d.prepared w r = (made, .ok scratch))
    (h' : d.prepared w r = (made', .ok scratch')) : made = made' ∧ scratch = scratch' := by
  rw [h] at h'
  simpa using h'

/-- A scratch directory takes nothing away, whether it could be made or not. -/
theorem kept_of_prepared {result : Except Fault Path} {place : Location} {node : FileNode}
    (h : d.prepared w r = (made, result)) (stands : w.files.get? place = some node) :
    made.get? place = some node := by
  cases result with
  | ok scratch => exact (Scratch.prepared_of_prepare h).grown.kept place node stands
  | error fault =>
    obtain ⟨unset, set⟩ := Scratch.grown_of_prepare_error h
    cases output : r.output with
    | none =>
      rw [unset output]
      exact stands
    | some path => exact (set path output).1.kept place node stands

/-- The scratch directory of a request that names one is where the name leads from the app. -/
theorem aim_of_prepared {app : Location} {output : Path} (h : d.prepared w r = (made, .ok scratch))
    (there : w.files.locate w.current r.dir = .ok app) (set : r.output = some output) :
    FileTree.aim w.current scratch = FileTree.aim app output := by
  rw [(Scratch.prepared_of_prepare h).named output set]
  exact Scratch.aim_named there output

/-- The command that starts the tool for a request. -/
def commandFor (d : DeployRunner σ) (r : DeployRequest) (scratch : Path) : Command :=
  d.command r.dir ((d.completed r).args scratch)

/-- The files when the tool has just been started, or could not be, for a request among these files
and with this scratch directory. -/
def foundFor (d : DeployRunner σ) (w : Workshop σ) (r : DeployRequest) (made : FileTree)
    (scratch : Path) : FileTree :=
  d.foundBy { w with files := made } r.dir ((d.completed r).args scratch)

/-- The files as the tool leaves them that was started, if it could be, for a request among these
files and with this scratch directory. -/
def leftFor (d : DeployRunner σ) (w : Workshop σ) (r : DeployRequest) (made : FileTree)
    (scratch : Path) : FileTree :=
  d.leftBy { w with files := made } r.dir ((d.completed r).args scratch)

/-- A tool that was started leaves what it makes of the files that it has found. -/
theorem leftFor_of_started {process : ProcessRun}
    (started : (d.launch w.launcher made (d.commandFor r scratch)).2.2 = .ok process) :
    d.leftFor w r made scratch = process.leaves (d.foundFor w r made scratch) := by
  have started : d.started { w with files := made } r.dir ((d.completed r).args scratch) =
      .ok process := started
  unfold leftFor leftBy
  rw [started]
  rfl

/-- A tool that could not be started leaves the files that there were. -/
theorem leftFor_of_error {fault : ProcessFault}
    (failed : (d.launch w.launcher made (d.commandFor r scratch)).2.2 = .error fault) :
    d.leftFor w r made scratch = d.foundFor w r made scratch := by
  have failed : d.started { w with files := made } r.dir ((d.completed r).args scratch) =
      .error fault := failed
  unfold leftFor leftBy
  rw [failed]
  rfl

/-- The files that there can be when a use of the tool is over. -/
inductive Leaves (d : DeployRunner σ) (w : Workshop σ) (r : DeployRequest) : FileTree → Prop
  /-- The tool was not started. -/
  | refused (fault : Fault) (h : (d.execute w r).2 = .error fault) :
      Leaves d w r (d.execute w r).1.files
  /-- Its run has ended. -/
  | ended (net n : RunNet) (h : (d.execute w r).2 = .ok net) (steps : Steps task net n)
      (ended : n.task.phase = .ended) : Leaves d w r n.task.files

theorem execute_of_unprepared {fault : Fault} (prep : d.prepared w r = (made, .error fault)) :
    (d.execute w r).1.files = made ∧ (d.execute w r).2 = .error fault := by
  have prep : Scratch.prepare w.files w.current d.tags (d.completed r) = (made, .error fault) :=
    prep
  simp [execute, prep]

theorem execute_of_prepared (prep : d.prepared w r = (made, .ok scratch)) :
    (d.execute w r).2 =
      match (d.launch w.launcher made (d.commandFor r scratch)).2.2 with
      | .ok process => .ok (Net.start
        (ofProcess process (d.foundFor w r made scratch) w.current (some scratch)) d.capacity false)
      | .error fault => .error fault.toFault := by
  have prep : Scratch.prepare w.files w.current d.tags (d.completed r) = (made, .ok scratch) :=
    prep
  unfold execute foundFor foundBy runWith commandFor
  simp only [prep, show (d.completed r).dir = r.dir from rfl]
  generalize d.launch w.launcher made _ = launched
  obtain ⟨launcher, found, result⟩ := launched
  cases result <;> rfl

/-- If the tool cannot be started the scratch directory is removed at once. -/
theorem files_of_unstarted {fault : ProcessFault} (prep : d.prepared w r = (made, .ok scratch))
    (failed : (d.launch w.launcher made (d.commandFor r scratch)).2.2 = .error fault) :
    (d.execute w r).1.files =
      (d.foundFor w r made scratch).removeDirectoryIfPossible w.current scratch := by
  have prep : Scratch.prepare w.files w.current d.tags (d.completed r) = (made, .ok scratch) :=
    prep
  unfold commandFor at failed
  unfold execute foundFor foundBy runWith
  simp only [prep, show (d.completed r).dir = r.dir from rfl]
  generalize d.launch w.launcher made _ = launched at failed ⊢
  obtain ⟨launcher, found, result⟩ := launched
  obtain rfl : result = .error fault := failed
  rfl

/-- Three things can happen to a request. -/
theorem execute_cases (d : DeployRunner σ) (w : Workshop σ) (r : DeployRequest) :
    (∃ made fault, d.prepared w r = (made, .error fault) ∧
      (d.execute w r).1.files = made ∧ (d.execute w r).2 = .error fault) ∨
    (∃ made scratch fault, d.prepared w r = (made, .ok scratch) ∧
      (d.execute w r).1.files =
        (d.leftFor w r made scratch).removeDirectoryIfPossible w.current scratch ∧
      (d.execute w r).2 = .error fault) ∨
    ∃ made scratch process, d.prepared w r = (made, .ok scratch) ∧
      (d.launch w.launcher made (d.commandFor r scratch)).2.2 = .ok process ∧
      (d.execute w r).2 = .ok (Net.start
        (ofProcess process (d.foundFor w r made scratch) w.current (some scratch))
        d.capacity false) := by
  cases prep : d.prepared w r with
  | mk made result =>
    cases result with
    | error fault => exact .inl ⟨made, fault, rfl, execute_of_unprepared prep⟩
    | ok scratch =>
      refine .inr ?_
      have result := execute_of_prepared prep
      cases started : (d.launch w.launcher made (d.commandFor r scratch)).2.2 with
      | error fault =>
        rw [started] at result
        refine .inl ⟨made, scratch, fault.toFault, rfl, ?_, result⟩
        rw [leftFor_of_error started]
        exact files_of_unstarted prep started
      | ok process =>
        rw [started] at result
        exact .inr ⟨made, scratch, process, rfl, started, result⟩

/-- When a use of the tool is over there was no scratch directory, or its removal was tried among
the files that the tool left. -/
theorem leaves_cases (leaves : d.Leaves w r after) :
    (∃ fault, d.prepared w r = (after, .error fault)) ∨
    ∃ made scratch, d.prepared w r = (made, .ok scratch) ∧
      (d.leftFor w r made scratch).Removal w.current scratch after := by
  rcases execute_cases d w r with ⟨made, fault, prep, files, failed⟩ |
    ⟨made, scratch, fault, prep, files, failed⟩ | ⟨made, scratch, process, prep, launched, started⟩
  · cases leaves with
    | refused => exact .inl ⟨fault, by rw [files]; exact prep⟩
    | ended net n h => rw [failed] at h; cases h
  · cases leaves with
    | refused =>
      refine .inr ⟨made, scratch, prep, ?_⟩
      rw [files]
      exact FileTree.removal_of_path _ _ _
    | ended net n h => rw [failed] at h; cases h
  · cases leaves with
    | refused fault h => rw [started] at h; cases h
    | ended net n h steps ended =>
      rw [started, Except.ok.injEq] at h
      subst h
      have cleans := cleansUp_start process (d.foundFor w r made scratch) w.current (some scratch)
        d.capacity
      refine .inr ⟨made, scratch, prep, ?_⟩
      rw [leftFor_of_started launched]
      exact cleans.tidied_of_steps steps ended

/-- Every use of the tool is over at some time. -/
theorem exists_leaves (d : DeployRunner σ) (w : Workshop σ) (r : DeployRequest) :
    ∃ after, d.Leaves w r after := by
  rcases execute_cases d w r with ⟨-, fault, -, -, failed⟩ | ⟨-, -, fault, -, -, failed⟩ |
    ⟨made, scratch, process, -, -, started⟩
  · exact ⟨_, .refused fault failed⟩
  · exact ⟨_, .refused fault failed⟩
  · have cleans := cleansUp_start process (d.foundFor w r made scratch) w.current (some scratch)
      d.capacity
    obtain ⟨run, deserted⟩ := exists_deserted (Net.start
      (ofProcess process (d.foundFor w r made scratch) w.current (some scratch)) d.capacity false)
    obtain ⟨j, ended⟩ := cleans.ends [] _ .start run (.inr deserted)
    exact ⟨_, .ended _ _ started (run.steps j) ended⟩

/-- A request for an app in some directory, with its output in another one. -/
def deployFrom (dir output : String) : DeployRequest where
  operation := .deploy
  dir := ⟨dir⟩
  output := some ⟨output⟩

/-- The files with the littered directory hang together. -/
theorem grounded_littered : littered.Grounded := FileTree.grounded_of_entries (by decide)

end DeployRunner

end DeployWatch
