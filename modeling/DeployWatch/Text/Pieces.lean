/-
# Pieces of a list

Two ways to cut a list at every occurrence of a mark.  `between` drops the marks, so that no
piece holds one; `ending` leaves each mark at the end of its piece.
-/

namespace DeployWatch.Text.Pieces

variable {α : Type} [DecidableEq α]

/-- What stands between the occurrences of a mark, empty pieces included. -/
def between (mark : α) : List α → List (List α)
  | [] => [[]]
  | a :: rest =>
    if a = mark then [] :: between mark rest
    else match between mark rest with
      | [] => [[a]]
      | piece :: more => (a :: piece) :: more

/-- Cuts a list after every occurrence of a mark; an empty last piece is left out. -/
def ending (mark : α) : List α → List (List α)
  | [] => []
  | a :: rest =>
    if a = mark then [a] :: ending mark rest
    else match ending mark rest with
      | [] => [[a]]
      | piece :: more => (a :: piece) :: more

theorem between_ne_nil (mark : α) (l : List α) : between mark l ≠ [] := by
  cases l with
  | nil => simp [between]
  | cons a rest =>
    unfold between
    split
    · simp
    · split <;> simp

/-- No piece holds the mark. -/
theorem not_mem_of_mem_between {mark : α} {l piece : List α} (h : piece ∈ between mark l) :
    mark ∉ piece := by
  induction l generalizing piece with
  | nil => simp_all [between]
  | cons a rest ih =>
    unfold between at h
    split at h
    · rcases List.mem_cons.mp h with rfl | h
      · simp
      · exact ih h
    · next ha =>
      split at h
      · next hm => exact absurd hm (between_ne_nil mark rest)
      · next first more hm =>
        rcases List.mem_cons.mp h with rfl | h
        · have := ih (hm ▸ List.mem_cons_self)
          simp only [List.mem_cons, not_or]
          exact ⟨fun e => ha e.symm, this⟩
        · exact ih (hm ▸ List.mem_cons_of_mem _ h)

end DeployWatch.Text.Pieces
