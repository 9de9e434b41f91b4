/-
# What a use of the deployment tool leaves behind

The output of the tool goes to a new directory, and the tool writes nowhere else.  When all is over
that directory is removed again.  If it was the only one that had to be made the files are as they
were before; if the ones above it had to be made, too, these stay, and nothing else does
(`DeployRunner.leaves_only_directories_on_the_way`).
-/

import DeployWatch.Proofs.Deploy.Preparation

namespace DeployWatch.DeployRunner

open DeployWatch.Watch Net DeployRun FileTree

variable {σ : Type} {d : DeployRunner σ} {w : Workshop σ} {r : DeployRequest}
  {made left after : FileTree} {scratch : Path} {current other : Location} {node : FileNode}

/-! ### What is assumed -/

/-- The directory that a request names for its output does not exist yet. -/
def NamesNew (w : Workshop σ) (r : DeployRequest) : Prop :=
  ∀ output, r.output = some output →
    w.files.get? (aim w.current (Scratch.named r output)) = none

/-- The tool writes nothing outside its output directory.  Under the path of the directory it
leaves a directory, or nothing at all. -/
structure KeepsTo (made left : FileTree) (current : Location) (scratch : Path) : Prop where
  beside : ∀ other, ¬ aim current scratch <+: other → left.get? other = made.get? other
  within : left.isDirectoryPath current scratch = true ∨
    ∀ other, aim current scratch <+: other → left.get? other = none

/-- If no part of the path of the output directory leads up again it does not matter what the tool
does below the directory. -/
theorem KeepsTo.of_level (level : ".." ∉ scratch.names)
    (leads : made.isDirectoryPath current scratch = true)
    (beside : ∀ other, ¬ aim current scratch <+: other → left.get? other = made.get? other)
    (dir : left.get? (aim current scratch) = some .directory) :
    KeepsTo made left current scratch where
  beside := beside
  within := .inl (isDirectoryPath_of_level level leads beside dir)

/-! ### What is left -/

/-- The output directory of a request is the only directory that has to be made for it. -/
def NeedsOne (w : Workshop σ) (r : DeployRequest) : Prop :=
  ∀ output, r.output = some output →
    ∃ made, w.files.makeDirectory w.current (Scratch.named r output) = .ok made

/-- What is left of a use of the tool when it is over. -/
structure Residue (d : DeployRunner σ) (w : Workshop σ) (r : DeployRequest) (after : FileTree) :
    Prop where
  /-- What was there before is there, as it was. -/
  kept : ∀ other node, w.files.get? other = some node → after.get? other = some node
  /-- All else that is there is a directory on the way to the one that the request names. -/
  added : ∀ other node, after.get? other = some node → w.files.get? other = some node ∨
    node = .directory ∧
      ∃ output, r.output = some output ∧ OnWay w.current (Scratch.named r output) other
  /-- Nothing is left if only one directory had to be made. -/
  same : NeedsOne w r → ∀ other, after.get? other = w.files.get? other
  /-- If the directory could be made it is gone with all that is below it, unless its path ends in
  dots, and the directories on the way to it that are not below it stay. -/
  cleared : ∀ made scratch, d.prepared w r = (made, .ok scratch) →
    (endsInDots scratch = false →
      ∀ other, aim w.current scratch <+: other → after.get? other = none) ∧
    ∀ other, OnWay w.current scratch other → ¬ aim w.current scratch <+: other →
      after.get? other = some .directory

/-- Where the output directory is made nothing stands before. -/
theorem absent_of_prepared (new : NamesNew w r) (prep : d.prepared w r = (made, .ok scratch)) :
    w.files.get? (aim w.current scratch) = none := by
  have prepared := Scratch.prepared_of_prepare prep
  cases set : r.output with
  | none => exact (prepared.fresh set).2.absent
  | some output =>
    rw [prepared.named output set]
    exact new output set

/-- If only one directory had to be made it is the only change before the tool is started. -/
theorem adds_of_prepared (prep : d.prepared w r = (made, .ok scratch)) (one : NeedsOne w r) :
    w.files.Adds w.current scratch made := by
  have prepared := Scratch.prepared_of_prepare prep
  cases set : r.output with
  | none => exact (prepared.fresh set).2
  | some output =>
    obtain ⟨single, h⟩ := one output set
    rw [prepared.named output set, prepared.single output single set h]
    exact adds_of_makeDirectory h

/-- What is left if no output directory could be made. -/
theorem residue_of_refused {fault : Fault} (prep : d.prepared w r = (after, .error fault)) :
    Residue d w r after := by
  obtain ⟨unset, named⟩ := Scratch.grown_of_prepare_error prep
  refine ⟨fun other node => kept_of_prepared prep, ?_, ?_, ?_⟩
  · intro other node stands
    cases set : r.output with
    | none =>
      rw [unset set] at stands
      exact .inl stands
    | some output =>
      rcases (named output set).1.added other node stands with before | ⟨dir, on⟩
      · exact .inl before
      · exact .inr ⟨dir, output, rfl, on⟩
  · intro one other
    cases set : r.output with
    | none => rw [unset set]
    | some output =>
      obtain ⟨single, h⟩ := one output set
      exact absurd h ((named output set).2 single)
  · intro made scratch done
    rw [prep] at done
    cases done

/-- Beside the output directory the files are as they were when the tool was started. -/
theorem KeepsTo.get?_beside (keeps : KeepsTo made left current scratch)
    (removal : left.Removal current scratch after) (beside : ¬ aim current scratch <+: other) :
    after.get? other = made.get? other := by
  rw [removal.get?_beside beside, keeps.beside other beside]

/-- The output directory is gone with all that was below it, unless its path ends in dots. -/
theorem KeepsTo.get?_below (keeps : KeepsTo made left current scratch)
    (removal : left.Removal current scratch after) (plain : endsInDots scratch = false)
    (below : aim current scratch <+: other) : after.get? other = none := by
  rcases removal.cleared keeps.within below with gone | ⟨-, dots, -⟩
  · exact gone
  · rw [plain] at dots
    cases dots

/-- If only one directory had to be made its removal makes all as it was before. -/
theorem get?_of_adds (grounded : w.files.Grounded) (adds : w.files.Adds w.current scratch made)
    (keeps : KeepsTo made left w.current scratch)
    (removal : left.Removal w.current scratch after) (other : Location) :
    after.get? other = w.files.get? other := by
  by_cases below : aim w.current scratch <+: other
  · have before : w.files.get? other = none := by
      by_contra stands
      exact grounded.not_prefix adds.absent stands below
    rw [before]
    exact keeps.get?_below removal adds.plain below
  · have ne : other ≠ aim w.current scratch := by
      rintro rfl
      exact below (List.prefix_refl _)
    rw [keeps.get?_beside removal below, adds.others other ne]

/-- If a directory is named for the output nothing is left but directories on the way to it. -/
theorem onWay_of_removal {output : Path} (prep : d.prepared w r = (made, .ok scratch))
    (set : r.output = some output) (keeps : KeepsTo made left w.current scratch)
    (removal : left.Removal w.current scratch after) (stands : after.get? other = some node) :
    w.files.get? other = some node ∨
      node = .directory ∧ OnWay w.current (Scratch.named r output) other := by
  have prepared := Scratch.prepared_of_prepare prep
  obtain rfl : scratch = Scratch.named r output := prepared.named output set
  by_cases below : aim w.current (Scratch.named r output) <+: other
  · rcases removal.cleared keeps.within below with gone | ⟨self, -, dir⟩
    · rw [gone] at stands
      cases stands
    · rw [dir, Option.some.injEq] at stands
      rw [self]
      exact .inr ⟨stands.symm, _, List.prefix_refl _, rfl⟩
  · rw [keeps.get?_beside removal below] at stands
    exact prepared.grown.added other node stands

/-- The directories on the way to the output directory stay if they are not in it. -/
theorem directory_of_onWay (prep : d.prepared w r = (made, .ok scratch))
    (keeps : KeepsTo made left w.current scratch)
    (removal : left.Removal w.current scratch after) (on : OnWay w.current scratch other)
    (beside : ¬ aim w.current scratch <+: other) : after.get? other = some .directory := by
  have text : scratch.text.isEmpty = false := by
    rw [← Bool.not_eq_true]
    intro empty
    -- an empty path has no other place on its way than the one that it leads to
    obtain ⟨front, hf, rfl⟩ := on
    apply beside
    have none := Path.names_of_isEmpty empty
    rw [none] at hf
    rw [List.prefix_nil.mp hf, aim, none]
  have leads := (Scratch.prepared_of_prepare prep).leads text
  rw [keeps.get?_beside removal beside]
  exact beq_iff_eq.mp (isDirectory_of_onWay leads on)

/-- What is left if the output directory was made and its removal was tried in the end. -/
theorem residue_of_removal (grounded : w.files.Grounded) (new : NamesNew w r)
    (prep : d.prepared w r = (made, .ok scratch)) (keeps : KeepsTo made left w.current scratch)
    (removal : left.Removal w.current scratch after) : Residue d w r after := by
  refine ⟨?_, ?_, ?_, ?_⟩
  · intro other node stands
    have beside : ¬ aim w.current scratch <+: other := by
      apply grounded.not_prefix (absent_of_prepared new prep)
      rw [stands]
      exact Option.some_ne_none node
    rw [keeps.get?_beside removal beside]
    exact kept_of_prepared prep stands
  · intro other node stands
    cases set : r.output with
    | none =>
      have adds := ((Scratch.prepared_of_prepare prep).fresh set).2
      rw [get?_of_adds grounded adds keeps removal] at stands
      exact .inl stands
    | some output =>
      rcases onWay_of_removal prep set keeps removal stands with before | ⟨dir, on⟩
      · exact .inl before
      · exact .inr ⟨dir, output, rfl, on⟩
  · intro one
    exact get?_of_adds grounded (adds_of_prepared prep one) keeps removal
  · intro made' scratch' prep'
    obtain ⟨rfl, rfl⟩ := prepared_inj prep prep'
    constructor
    · intro plain other below
      exact keeps.get?_below removal plain below
    · intro other on beside
      exact directory_of_onWay prep keeps removal on beside

/-- **A use of the tool leaves nothing but directories that had to be made on the way** to the one
for its output.  If that is a new one, and the tool writes nothing outside of it, then all is as it
was before when the use is over, whether it went well or not, but for these directories; and if
there was no other one to be made, or the request names none, all is exactly as it was. -/
theorem leaves_only_directories_on_the_way (d : DeployRunner σ) (w : Workshop σ)
    (r : DeployRequest) (grounded : w.files.Grounded) (new : NamesNew w r)
    (keeps : ∀ made scratch, d.prepared w r = (made, .ok scratch) →
      KeepsTo made (d.leftFor w r made scratch) w.current scratch) :
    (∃ after, d.Leaves w r after) ∧ ∀ after, d.Leaves w r after → Residue d w r after := by
  refine ⟨exists_leaves d w r, ?_⟩
  intro after leaves
  rcases leaves_cases leaves with ⟨fault, prep⟩ | ⟨made, scratch, prep, removal⟩
  · exact residue_of_refused prep
  · exact residue_of_removal grounded new prep (keeps made scratch prep) removal

/-- A way of running a scripted tool that puts a file somewhere when it is started. -/
def writing (place : Location) : DeployRunner Script where
  launch s files c := ((s.start c).1, files.put place (.file []), (s.start c).2)
  capacity := 0

/-- What the files are after a tool that puts a file somewhere. -/
theorem get?_leftFor_writing {place : Location} (root : place ≠ []) (w : Workshop Script)
    (made : FileTree) (other : Location) :
    ((writing place).leftFor w r made scratch).get? other =
      if other = place then some (.file []) else made.get? other := by
  have put : (made.put place (.file [])).get? other =
      if other = place then some (.file []) else made.get? other := get?_put root other
  cases started : ((writing place).launch w.launcher made
      ((writing place).commandFor r scratch)).2.2 with
  | error fault =>
    rw [leftFor_of_error started]
    exact put
  | ok process =>
    rw [leftFor_of_started started, Script.leaves_of_start started]
    exact put

/-- The files are just as before after a use of a tool that writes a file into a new output
directory. -/
theorem leaves_nothing_of_new_output : ∃ after,
    (writing ["out", "new", "x"]).Leaves (bench false) (deployFrom "out" "new") after ∧
    ∀ other, after.get? other = littered.get? other := by
  have keeps : ∀ made scratch,
      (writing ["out", "new", "x"]).prepared (bench false) (deployFrom "out" "new") =
        (made, .ok scratch) →
      KeepsTo made ((writing ["out", "new", "x"]).leftFor (bench false) (deployFrom "out" "new")
        made scratch) [] scratch := by
    intro made scratch prep
    have prepared := Scratch.prepared_of_prepare prep
    obtain rfl : scratch = ⟨"out/new"⟩ := prepared.named ⟨"new"⟩ rfl
    have aim_eq : aim [] ⟨"out/new"⟩ = ["out", "new"] := by decide +kernel
    have leads : made.isDirectoryPath [] ⟨"out/new"⟩ = true := prepared.leads rfl
    refine .of_level (by decide +kernel) leads ?_ ?_
    · intro other apart
      rw [get?_leftFor_writing (by simp), if_neg]
      rintro rfl
      exact apart (by rw [aim_eq]; decide)
    · rw [get?_leftFor_writing (by simp), if_neg (by rw [aim_eq]; decide)]
      exact get?_of_isDirectoryPath leads
  obtain ⟨⟨after, leaves⟩, residue⟩ := leaves_only_directories_on_the_way
    (writing ["out", "new", "x"]) (bench false) (deployFrom "out" "new") grounded_littered
    (by rintro output ⟨⟩; decide +kernel) keeps
  refine ⟨after, leaves, (residue after leaves).same ?_⟩
  rintro output ⟨⟩
  exact ⟨_, rfl⟩

/-- **Not all is as before** after tools that write nothing outside their output directory, under a
path where nothing exists.  If two directories had to be made the upper one stays.  If the path
leads back to what was there all of that is gone.  And if the tool puts a file in place of its
directory this file stays. -/
theorem not_all_as_before :
    (littered.existsAt [] ⟨"./a/b"⟩ = false ∧ littered.get? ["a"] = none ∧
      ∃ after, scripted.Leaves (bench false) (deployFrom "." "a/b") after ∧
        after.get? ["a"] = some .directory) ∧
    (littered.existsAt [] ⟨"./a/.."⟩ = false ∧ littered.get? ["keep"] = some (.file []) ∧
      ∃ after, scripted.Leaves (bench false) (deployFrom "." "a/..") after ∧
        after.get? ["keep"] = none) ∧
    (littered.existsAt [] ⟨"./a"⟩ = false ∧ littered.get? ["a"] = none ∧
      ∃ after, (writing ["a"]).Leaves (bench false) (deployFrom "." "a") after ∧
        after.get? ["a"] = some (.file [])) ∧
    (∀ r made scratch, scripted.leftFor (bench false) r made scratch = made) ∧
    ∀ r made scratch other, ¬ ["a"] <+: other →
      ((writing ["a"]).leftFor (bench false) r made scratch).get? other = made.get? other := by
  refine ⟨⟨by decide +kernel, by decide, ?_⟩, ⟨by decide +kernel, by decide, ?_⟩,
    ⟨by decide +kernel, by decide, ?_⟩, ?_, ?_⟩
  · refine ⟨_, .ended _ _ rfl ((Run.eager task rfl).steps 12) ?_, ?_⟩ <;> decide +kernel
  · refine ⟨_, .ended _ _ rfl ((Run.eager task rfl).steps 12) ?_, ?_⟩ <;> decide +kernel
  · refine ⟨_, .ended _ _ rfl ((Run.eager task rfl).steps 12) ?_, ?_⟩ <;> decide +kernel
  · intro r made scratch
    rfl
  · intro r made scratch other apart
    rw [get?_leftFor_writing (by simp), if_neg]
    rintro rfl
    exact apart (List.prefix_refl _)

end DeployWatch.DeployRunner
