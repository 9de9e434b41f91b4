/-
# What becomes of the app

The output of the tool goes to a directory that is removed in the end, wherever it is.  If it is a
fresh one, or one that is named and is neither the directory of the app nor above it, nothing
happens to the app (`DeployRunner.keeps_app_unless_output_holds_it`).  A request may name the
directory of the app itself, though, with a dot or an empty text, or one above it, with two dots:
such a directory is there already and is taken as it is, and the removal takes everything in the
app with it.
-/

import DeployWatch.Proofs.Deploy.Preparation

namespace DeployWatch.DeployRunner

open DeployWatch.Watch Net DeployRun FileTree

variable {σ : Type} {d : DeployRunner σ} {w : Workshop σ} {r : DeployRequest} {t : FileTree}
  {app other : Location} {node : FileNode} {made after : FileTree} {scratch : Path}

/-- What stands in an app, but for what is in a proper subdirectory of the app that the request
names for the output. -/
structure InApp (t : FileTree) (app : Location) (r : DeployRequest) (other : Location)
    (node : FileNode) : Prop where
  stands : t.get? other = some node
  inside : app <+: other
  apart : ∀ output, r.output = some output → app <+: aim app output → aim app output ≠ app →
    ¬ aim app output <+: other

/-- The tool does not touch what stands in the app. -/
def SparesApp (d : DeployRunner σ) (w : Workshop σ) (r : DeployRequest) (app : Location) : Prop :=
  ∀ made scratch, d.prepared w r = (made, .ok scratch) → ∀ other node,
    InApp w.files app r other node → (d.leftFor w r made scratch).get? other = some node

/-- The output has a directory of its own if the app is not in it. -/
def HasOwnOutput (r : DeployRequest) (app : Location) : Prop :=
  ∀ output, r.output = some output → ¬ aim app output <+: app

/-- What stands in the app is beside an output directory of its own. -/
theorem InApp.beside (inApp : InApp w.files app r other node) (own : HasOwnOutput r app)
    (grounded : w.files.Grounded) (there : w.files.locate w.current r.dir = .ok app)
    (prep : d.prepared w r = (made, .ok scratch)) : ¬ aim w.current scratch <+: other := by
  intro below
  cases output : r.output with
  | none =>
    -- where the fresh directory is made nothing stood before
    obtain ⟨-, adds⟩ := (Scratch.prepared_of_prepare prep).fresh output
    apply grounded.not_prefix adds.absent _ below
    rw [inApp.stands]
    exact Option.some_ne_none node
  | some path =>
    rw [aim_of_prepared prep there output] at below
    rcases List.prefix_or_prefix_of_prefix inApp.inside below with deeper | higher
    · apply inApp.apart path output deeper _ below
      intro same
      apply own path output
      rw [same]
    · exact own path output higher

/-- **The app is safe unless the output directory holds it.**  If the output has a directory of its
own, what stood in the app before still stands there in the end, however the use of the tool went.
But if the directory of the app is the output directory or in it, nothing in it is left once the
directory is removed, and it is gone itself if the path of the output does not end in dots. -/
theorem keeps_app_unless_output_holds_it (d : DeployRunner σ) (w : Workshop σ)
    (r : DeployRequest) (app : Location) (grounded : w.files.Grounded)
    (there : w.files.locate w.current r.dir = .ok app) (spares : d.SparesApp w r app) :
    (∃ after, d.Leaves w r after) ∧
    (HasOwnOutput r app → ∀ after, d.Leaves w r after → ∀ other node,
      InApp w.files app r other node → after.get? other = some node) ∧
    (¬ HasOwnOutput r app → ∀ made scratch, d.prepared w r = (made, .ok scratch) →
      (d.leftFor w r made scratch).isDirectoryPath w.current scratch = true →
      ∀ after, d.Leaves w r after →
        (∀ other, app <+: other → other ≠ app → after.get? other = none) ∧
        (endsInDots scratch = false → after.get? app = none)) := by
  refine ⟨exists_leaves d w r, ?_, ?_⟩
  · intro own after leaves other node inApp
    rcases leaves_cases leaves with ⟨fault, prep⟩ | ⟨made, scratch, prep, removal⟩
    · exact kept_of_prepared prep inApp.stands
    · rw [removal.get?_beside (inApp.beside own grounded there prep)]
      exact spares made scratch prep other node inApp
  · intro shared made scratch prep leads after leaves
    obtain ⟨output, set, holds⟩ : ∃ output, r.output = some output ∧ aim app output <+: app := by
      simpa [HasOwnOutput] using shared
    rcases leaves_cases leaves with ⟨fault, failed⟩ | ⟨made', scratch', prep', removal⟩
    · rw [prep] at failed
      cases failed
    · obtain ⟨rfl, rfl⟩ := prepared_inj prep prep'
      have above : aim w.current scratch <+: app := by
        rw [aim_of_prepared prep there set]
        exact holds
      constructor
      · intro other inside ne
        rcases removal.cleared (.inl leads) (above.trans inside) with gone | ⟨same, -, -⟩
        · exact gone
        · -- the output directory is above the app, so it is not below it
          rw [← same] at above
          exact absurd (above.eq_of_length_le inside.length_le) ne
      · intro plain
        rcases removal.cleared (.inl leads) above with gone | ⟨-, dots, -⟩
        · exact gone
        · rw [plain] at dots
          cases dots

/-- The file in the app is still there after a use of the tool that puts its output into a new
directory of the app. -/
theorem keeps_app_beside_new_output : ∃ after,
    scripted.Leaves (bench false) (deployFrom "out" "cdk.out") after ∧
    after.get? ["out", "x"] = some (.file []) := by
  have spares : scripted.SparesApp (bench false) (deployFrom "out" "cdk.out") ["out"] := by
    intro made scratch prep other node inApp
    exact kept_of_prepared prep inApp.stands
  have own : HasOwnOutput (deployFrom "out" "cdk.out") ["out"] := by
    rintro output ⟨⟩
    decide +kernel
  obtain ⟨⟨after, leaves⟩, safe, -⟩ := keeps_app_unless_output_holds_it scripted (bench false)
    (deployFrom "out" "cdk.out") ["out"] grounded_littered (by decide +kernel) spares
  refine ⟨after, leaves, safe own after leaves ["out", "x"] (.file []) ⟨by decide, by decide, ?_⟩⟩
  rintro output ⟨⟩
  decide +kernel

/-- **A dot takes the app away.**  The tool touches nothing, but if its output is to go to the
directory of the app the file in the app is gone in the end; with an empty text for the output the
app is gone itself. -/
theorem dot_takes_app_away :
    (∀ output, scripted.SparesApp (bench false) (deployFrom "out" output) ["out"]) ∧
    InApp littered ["out"] (deployFrom "out" ".") ["out", "x"] (.file []) ∧
    (∃ after, scripted.Leaves (bench false) (deployFrom "out" ".") after ∧
      after.get? ["out", "x"] = none) ∧
    InApp littered ["out"] (deployFrom "out" "") ["out"] .directory ∧
    ∃ after, scripted.Leaves (bench false) (deployFrom "out" "") after ∧
      after.get? ["out"] = none := by
  refine ⟨?_, ⟨by decide, by decide, ?_⟩, ?_, ⟨by decide, by decide, ?_⟩, ?_⟩
  · intro output made scratch prep other node inApp
    exact kept_of_prepared prep inApp.stands
  · rintro output ⟨⟩ -
    decide +kernel
  · refine ⟨_, .ended _ _ rfl ((Run.eager task rfl).steps 12) ?_, ?_⟩ <;> decide +kernel
  · rintro output ⟨⟩ -
    decide +kernel
  · refine ⟨_, .ended _ _ rfl ((Run.eager task rfl).steps 12) ?_, ?_⟩ <;> decide +kernel

end DeployWatch.DeployRunner
