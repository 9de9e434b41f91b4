/-
# Chronicles

A state of a watch does not tell how it came about.  A chronicle does: it goes along the steps of
a watch and notes what is new in each of them, in their order.  What counts as news is a matter of
the two states of a step, so that nothing has to be added to the watch itself.

Every state that steps lead to has a chronicle (`Steps.exists_chronicle`), and a run has one that
only grows (`Run.log_prefix`).
-/

import DeployWatch.Proofs.Watch.Runs

namespace DeployWatch.Watch.Net

variable {σ ε α : Type} {t : Task σ ε} {n m : Net σ ε} {news : Net σ ε → Net σ ε → List α}

/-- `Chronicle t news n log m`: steps lead from `n` to `m`, and `log` is what was new in them. -/
inductive Chronicle (t : Task σ ε) (news : Net σ ε → Net σ ε → List α) (n : Net σ ε) :
    List α → Net σ ε → Prop
  | nil : Chronicle t news n [] n
  | snoc {log : List α} {a b : Net σ ε} (before : Chronicle t news n log a) (step : Step t a b) :
      Chronicle t news n (log ++ news a b) b

theorem Chronicle.steps {log : List α} (h : Chronicle t news n log m) : Steps t n m := by
  induction h with
  | nil => exact .refl n
  | snoc _ step ih => exact ih.tail step

/-- Every state that steps lead to has a chronicle. -/
theorem Steps.exists_chronicle (run : Steps t n m) (news : Net σ ε → Net σ ε → List α) :
    ∃ log, Chronicle t news n log m := by
  induction run with
  | refl => exact ⟨[], .nil⟩
  | tail _ step ih =>
    obtain ⟨log, before⟩ := ih
    exact ⟨_, before.snoc step⟩

namespace Run

/-- The chronicle of a run up to one of its states. -/
def log (run : Run t n) (news : Net σ ε → Net σ ε → List α) : Nat → List α
  | 0 => []
  | i + 1 => run.log news i ++ news (run.state i) (run.state (i + 1))

/-- If there is no news where nothing happens, a run has a chronicle. -/
theorem chronicle (run : Run t n) (still : ∀ m, news m m = []) (i : Nat) :
    Chronicle t news n (run.log news i) (run.state i) := by
  induction i with
  | zero =>
    rw [run.first]
    exact .nil
  | succ i ih =>
    rcases run.next i with same | step
    · rw [log, same, still, List.append_nil]
      exact ih
    · exact ih.snoc step

/-- The chronicle of a run only grows. -/
theorem log_prefix (run : Run t n) (news : Net σ ε → Net σ ε → List α) {i j : Nat} (le : i ≤ j) :
    run.log news i <+: run.log news j := by
  induction j, le using Nat.le_induction with
  | base => exact List.prefix_refl _
  | succ j _ ih => exact ih.trans (List.prefix_append _ _)

end Run

end DeployWatch.Watch.Net
