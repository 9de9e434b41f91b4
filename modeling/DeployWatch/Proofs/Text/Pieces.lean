/-
# Pieces of lists put side by side

A mark between two lists separates their pieces (`between_append`).  So pieces without a mark are
found again when marks are put between them (`between_intercalate`).

Every list is a last piece without a mark, or such a piece, a mark and a list again.  Induction
along that (`marks_induction`) follows the pieces that end with their marks
(`ending_append_cons`, `ending_of_not_mem`).
-/

import DeployWatch.Text.Pieces

namespace DeployWatch.Text.Pieces

variable {α : Type} [DecidableEq α] {mark : α}

/-- A mark between two lists separates their pieces. -/
theorem between_append (front rest : List α) :
    between mark (front ++ mark :: rest) = between mark front ++ between mark rest := by
  induction front with
  | nil => simp [between]
  | cons a front ih =>
    rw [List.cons_append, between, between, ih]
    split
    · rfl
    · obtain ⟨piece, more, eq⟩ := List.exists_cons_of_ne_nil (between_ne_nil mark front)
      rw [eq]
      rfl

/-- A list without the mark is one piece. -/
theorem between_of_not_mem {l : List α} (h : mark ∉ l) : between mark l = [l] := by
  induction l with
  | nil => rfl
  | cons a rest ih =>
    simp only [List.mem_cons, not_or] at h
    rw [between, if_neg (fun eq => h.1 eq.symm), ih h.2]

/-- The first piece ends at the first mark. -/
theorem between_append_cons {piece : List α} (h : mark ∉ piece) (rest : List α) :
    between mark (piece ++ mark :: rest) = piece :: between mark rest := by
  rw [between_append, between_of_not_mem h]
  rfl

/-- Pieces without the mark are found again when marks are put between them. -/
theorem between_intercalate {pieces : List (List α)} (ne : pieces ≠ [])
    (h : ∀ piece ∈ pieces, mark ∉ piece) :
    between mark (List.intercalate [mark] pieces) = pieces := by
  induction pieces with
  | nil => exact absurd rfl ne
  | cons piece more ih =>
    have free : mark ∉ piece := h piece List.mem_cons_self
    cases more with
    | nil => simpa using between_of_not_mem free
    | cons next more =>
      have ih := ih (List.cons_ne_nil _ _) fun p hp => h p (List.mem_cons_of_mem _ hp)
      rw [List.intercalate_cons_cons, List.append_assoc, List.singleton_append,
        between_append_cons free, ih]

/-! ### Pieces that end with their marks -/

/-- Induction along the marks of a list. -/
@[elab_as_elim]
theorem marks_induction (mark : α) {motive : List α → Prop} (l : List α)
    (last : ∀ l, mark ∉ l → motive l)
    (piece : ∀ front rest, mark ∉ front → motive rest → motive (front ++ mark :: rest)) :
    motive l := by
  by_cases mem : mark ∈ l
  · obtain ⟨front, rest, eq, free⟩ := List.eq_append_cons_of_mem mem
    have shorter : rest.length < l.length := by
      rw [eq, List.length_append, List.length_cons]
      omega
    exact eq ▸ piece front rest free (marks_induction mark rest last piece)
  · exact last l mem
termination_by l.length

/-- The first piece ends with the first mark. -/
theorem ending_append_cons {front : List α} (free : mark ∉ front) (rest : List α) :
    ending mark (front ++ mark :: rest) = (front ++ [mark]) :: ending mark rest := by
  induction front with
  | nil => simp [ending]
  | cons a front ih =>
    simp only [List.mem_cons, not_or] at free
    rw [List.cons_append, ending, if_neg (fun eq => free.1 eq.symm), ih free.2, List.cons_append]

/-- A list without the mark is one piece, unless it is empty. -/
theorem ending_of_not_mem {l : List α} (ne : l ≠ []) (free : mark ∉ l) : ending mark l = [l] := by
  induction l with
  | nil => exact absurd rfl ne
  | cons a rest ih =>
    simp only [List.mem_cons, not_or] at free
    rw [ending, if_neg (fun eq => free.1 eq.symm)]
    cases rest with
    | nil => rfl
    | cons b rest => rw [ih (List.cons_ne_nil _ _) free.2]

/-- There are as many pieces as marks, and one more if something follows the last mark. -/
theorem length_ending (l : List α) :
    (ending mark l).length = l.count mark + if l.getLast?.getD mark = mark then 0 else 1 := by
  induction l using marks_induction mark with
  | last l free =>
    rw [List.count_eq_zero_of_not_mem free]
    cases last : l.getLast? with
    | none =>
      obtain rfl := List.getLast?_eq_none_iff.mp last
      simp [ending]
    | some a =>
      have mem : a ∈ l := List.mem_of_getLast? last
      have ne : a ≠ mark := fun eq => free (eq ▸ mem)
      rw [ending_of_not_mem (List.ne_nil_of_mem mem) free, Option.getD_some, if_neg ne]
      rfl
  | piece front rest free ih =>
    have last : (front ++ mark :: rest).getLast?.getD mark = rest.getLast?.getD mark := by
      rw [List.getLast?_append, List.getLast?_cons, Option.some_or, Option.getD_some]
    rw [ending_append_cons free, List.length_cons, ih, last, List.count_append,
      List.count_eq_zero_of_not_mem free, List.count_cons_self]
    omega

end DeployWatch.Text.Pieces
