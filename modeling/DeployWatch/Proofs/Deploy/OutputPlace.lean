/-
# Where the tool writes and where the runner cleans up

The scratch directory of a request is named once, seen from the current directory of the runner.
The tool is told the same text, but it is started in the directory of the app and sees the path
from there.  So the two mean the same directory only if the path starts at the root, or if the app
is in a place from where the path leads back to it (`DeployRunner.tool_finds_output_iff`).  Without
two dots in the path that is the current directory alone (`FileTree.eq_of_locate_level`).
-/

import DeployWatch.Proofs.Deploy.Preparation

namespace DeployWatch

/-- The directory that the tool is told to put its output into. -/
def outputOf? (args : List String) : Option Path :=
  match args.reverse with
  | text :: "--output" :: _ => some ⟨text⟩
  | _ => none

namespace DeployRunner

open DeployWatch.Watch Net DeployRun FileTree

variable {σ : Type} {d : DeployRunner σ} {w : Workshop σ} {r : DeployRequest} {net : RunNet}
  {made : FileTree} {scratch : Path} {t : FileTree} {app : Location}

/-- The tool as it was started for a request: what it was told, and what is removed after it. -/
structure StartedWith (d : DeployRunner σ) (w : Workshop σ) (r : DeployRequest) (net : RunNet)
    (made : FileTree) (scratch : Path) : Prop where
  prepared : d.prepared w r = (made, .ok scratch)
  /-- This command was started. -/
  launched : ∃ process, (d.launch w.launcher made (d.commandFor r scratch)).2.2 = .ok process ∧
    net = Net.start (ofProcess process (d.foundFor w r made scratch) w.current (some scratch))
      d.capacity false
  told : outputOf? (d.commandFor r scratch).args = some scratch
  /-- It is started in the directory of the app. -/
  within : (d.commandFor r scratch).dir = some r.dir
  /-- The runner sees the path of the scratch directory from its own current directory. -/
  removes : ∀ n, Steps task net n → n.task.phase = .ended →
    (d.leftFor w r made scratch).Removal w.current scratch n.task.files

theorem exists_startedWith (h : (d.execute w r).2 = .ok net) :
    ∃ made scratch, StartedWith d w r net made scratch := by
  rcases execute_cases d w r with ⟨made, fault, -, -, failed⟩ |
    ⟨made, scratch, fault, -, -, failed⟩ | ⟨made, scratch, process, prep, launched, started⟩
  · rw [failed] at h
    cases h
  · rw [failed] at h
    cases h
  · rw [started, Except.ok.injEq] at h
    subst h
    refine ⟨made, scratch, prep, ⟨process, launched, rfl⟩, ?_, rfl, ?_⟩
    · simp [outputOf?, commandFor, command, DeployRequest.args]
    · intro n steps ended
      rw [leftFor_of_started launched]
      exact (cleansUp_start process _ _ _ _).tidied_of_steps steps ended

/-- The app or its output is named from the root on, or the output is not named at all. -/
def StartsAtRoot (r : DeployRequest) : Prop :=
  r.dir.isAbsolute = true ∨ ∀ output, r.output = some output → output.isAbsolute = true

/-- The path of a scratch directory starts at the root if the request names it from there on. -/
theorem isAbsolute_iff_startsAtRoot (prep : d.prepared w r = (made, .ok scratch)) :
    scratch.isAbsolute = true ↔ StartsAtRoot r := by
  have prepared := Scratch.prepared_of_prepare prep
  unfold StartsAtRoot
  cases set : r.output with
  | none => simp [(prepared.fresh set).1]
  | some output =>
    have named : scratch = Scratch.named r output := prepared.named output set
    rw [named]
    unfold Scratch.named
    by_cases absolute : output.isAbsolute = true
    · simp [absolute]
    · simp [absolute, Path.isAbsolute_join]

/-- The path of a scratch directory for an app that is there is not empty. -/
theorem text_of_prepared (prep : d.prepared w r = (made, .ok scratch))
    (there : t.locate w.current r.dir = .ok app) : scratch.text.isEmpty = false := by
  have prepared := Scratch.prepared_of_prepare prep
  have dir : r.dir.text.isEmpty = false := by
    unfold locate at there
    split at there
    · cases there
    · next full => simpa using full
  cases set : r.output with
  | none => exact Path.isEmpty_of_isAbsolute (prepared.fresh set).1
  | some output =>
    have named : scratch = Scratch.named r output := prepared.named output set
    rw [named]
    unfold Scratch.named
    split
    · next absolute => exact Path.isEmpty_of_isAbsolute absolute
    · exact Path.isEmpty_join dir output

/-- **The tool finds the directory that the runner made for it** just if the path starts at the
root, or if the app and the current directory are the same as many levels up as the path climbs and
the path leads anywhere from the app.  The tool is told the path as the runner sees it, and it is
this path, seen from the current directory, that was made and that is removed after the run. -/
theorem tool_finds_output_iff (d : DeployRunner σ) (w : Workshop σ) (r : DeployRequest)
    (net : RunNet) (h : (d.execute w r).2 = .ok net) :
    ∃ made scratch, StartedWith d w r net made scratch ∧
      ∀ app, made.locate w.current r.dir = .ok app →
        ∃ place, made.locate w.current scratch = .ok place ∧ made.isDirectory place = true ∧
          (made.locate app scratch = .ok place ↔ StartsAtRoot r ∨
            app.rdrop (rise scratch.names) = w.current.rdrop (rise scratch.names) ∧
              made.existsAt app scratch = true) := by
  obtain ⟨made, scratch, started⟩ := exists_startedWith h
  refine ⟨made, scratch, started, ?_⟩
  intro app there
  have leads := (Scratch.prepared_of_prepare started.prepared).leads
    (text_of_prepared started.prepared there)
  unfold isDirectoryPath at leads
  split at leads
  · next place found =>
    refine ⟨place, found, leads, ?_⟩
    rw [locate_from_iff found, isAbsolute_iff_startsAtRoot started.prepared]
  · cases leads

/-- An app that is named from the root on finds the directory that was made for its output. -/
theorem tool_finds_output_from_root : ∃ net made scratch,
    StartedWith scripted (bench false) (deployFrom "/out" "new") net made scratch ∧
      made.locate ["out"] scratch = .ok ["out", "new"] := by
  obtain ⟨made, scratch, started, agree⟩ :=
    tool_finds_output_iff scripted (bench false) (deployFrom "/out" "new") _ rfl
  refine ⟨_, made, scratch, started, ?_⟩
  have made_eq : made = (scripted.prepared (bench false) (deployFrom "/out" "new")).1 := by
    rw [started.prepared]
  have scratch_eq : scratch = ⟨"/out/new"⟩ :=
    (Scratch.prepared_of_prepare started.prepared).named ⟨"new"⟩ rfl
  obtain ⟨place, -, -, same⟩ := agree ["out"] (by rw [made_eq]; decide +kernel)
  have found : made.locate ["out"] scratch = .ok place := same.mpr (.inl (.inl rfl))
  rw [found, aim_of_locate found, scratch_eq]
  decide +kernel

/-- **The tool writes elsewhere** when it is started in another directory and is told a path that
does not start at the root: the directory that was made for its output cannot be found from there.
-/
theorem relative_output_not_found : ∃ net made scratch,
    StartedWith scripted (bench false) (deployFrom "out" "cdk.out") net made scratch ∧
      made.locate [] ⟨"out"⟩ = .ok ["out"] ∧
      made.locate [] scratch = .ok ["out", "cdk.out"] ∧
      made.locate ["out"] scratch = .error .notFound := by
  obtain ⟨made, scratch, started⟩ :=
    exists_startedWith (d := scripted) (w := bench false) (r := deployFrom "out" "cdk.out") rfl
  have made_eq : made = (scripted.prepared (bench false) (deployFrom "out" "cdk.out")).1 := by
    rw [started.prepared]
  have scratch_eq : scratch = ⟨"out/cdk.out"⟩ :=
    (Scratch.prepared_of_prepare started.prepared).named ⟨"cdk.out"⟩ rfl
  refine ⟨_, made, scratch, started, ?_⟩
  rw [made_eq, scratch_eq]
  decide +kernel

end DeployRunner

end DeployWatch
