/-
# Leading runs

Readers take the longest run of characters of a kind and go on with what follows.  Where a run is
known to end (`LeadingRun`), it is found again (`LeadingRun.takeWhile_append`,
`LeadingRun.dropWhile_append`), and it is the only one there (`LeadingRun.unique`).
-/

import Mathlib.Data.List.Basic
import DeployWatch.Text.Blank

namespace DeployWatch.Text

/-- A character of a kind is no character that is not of the kind. -/
theorem ne_of_kind {kind : Char → Bool} {c d : Char} (of : kind c) (other : kind d = false) :
    c ≠ d := by
  rintro rfl
  exact Bool.false_ne_true (other.symm.trans of)

/-- `front` is the longest run of characters of a kind that `front ++ rest` begins with. -/
structure LeadingRun (kind : Char → Bool) (front rest : List Char) : Prop where
  all : ∀ c ∈ front, kind c
  stops : ∀ c ∈ rest.head?, kind c = false

namespace LeadingRun

variable {kind : Char → Bool} {front rest front' rest' : List Char}

theorem takeWhile_append (h : LeadingRun kind front rest) :
    (front ++ rest).takeWhile kind = front := by
  rw [List.takeWhile_append_of_pos h.all]
  cases rest with
  | nil => simp
  | cons c rest => rw [List.takeWhile_cons_of_neg (by simp [h.stops c rfl]), List.append_nil]

theorem dropWhile_append (h : LeadingRun kind front rest) :
    (front ++ rest).dropWhile kind = rest := by
  rw [List.dropWhile_append_of_pos h.all]
  cases rest with
  | nil => rfl
  | cons c rest => rw [List.dropWhile_cons_of_neg (by simp [h.stops c rfl])]

theorem unique (h : LeadingRun kind front rest) (h' : LeadingRun kind front' rest')
    (same : front ++ rest = front' ++ rest') : front = front' ∧ rest = rest' := by
  constructor
  · rw [← h.takeWhile_append, same, h'.takeWhile_append]
  · rw [← h.dropWhile_append, same, h'.dropWhile_append]

end LeadingRun

theorem leadingRun_takeWhile (kind : Char → Bool) (text : List Char) :
    LeadingRun kind (text.takeWhile kind) (text.dropWhile kind) where
  all := List.all_eq_true.mp List.all_takeWhile
  stops c head := by
    have := List.head?_dropWhile_not kind text
    rwa [Option.mem_def.mp head] at this

/-- Everything before the first occurrence of a mark is a leading run. -/
theorem leadingRun_mark {mark : Char} {front : List Char} (plain : mark ∉ front)
    (rest : List Char) : LeadingRun (· ≠ mark) front (mark :: rest) where
  all c mem := by
    rw [decide_eq_true_eq]
    rintro rfl
    exact plain mem
  stops c head := by
    obtain rfl : mark = c := by simpa using head
    simp

/-! ### Digits and blanks -/

theorem isBlank_eq_false_of_isDigit {c : Char} (digit : c.isDigit) : isBlank c = false := by
  have bounds : 48 ≤ c.toNat ∧ c.toNat ≤ 57 := by
    simpa [Char.isDigit, UInt32.le_iff_toNat_le] using digit
  have none : ∀ n ∈ blankCodes, ¬(48 ≤ n ∧ n ≤ 57) := by decide
  rw [isBlank, ← Bool.not_eq_true, List.contains_iff_mem]
  exact fun mem => none _ mem bounds

end DeployWatch.Text
