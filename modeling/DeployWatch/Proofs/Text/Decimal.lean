/-
# Decimal digits are read back

The digits of a number that stays below the bound are read as that number (`below?_digits`), and
an integer of 64 bits is read back from its digits and its sign (`signed?_signedDigits`).
-/

import DeployWatch.Text.Decimal

namespace DeployWatch.Text.Decimal

/-- The integers of 64 bits. -/
def IsLong (i : Int) : Prop := -(longBound / 2) ≤ i ∧ i < longBound / 2

instance (i : Int) : Decidable (IsLong i) := inferInstanceAs (Decidable (_ ∧ _))

theorem isDigit_of_mem_digits {n : Nat} {c : Char} (h : c ∈ digits n) : c.isDigit = true :=
  Nat.isDigit_of_mem_toDigits (by decide) (by decide) h

theorem digits_ne_nil (n : Nat) : digits n ≠ [] := Nat.toDigits_ne_nil

/-- The digits of a number within the bound are read as that number. -/
theorem below?_digits {bound n : Nat} (h : n < bound) : below? bound (digits n) = some n := by
  have all : (digits n).all Char.isDigit = true :=
    List.all_eq_true.mpr fun _ hc => isDigit_of_mem_digits hc
  simp [below?, digits_ne_nil, all, value_digits, h]

/-- What is read stands below the bound. -/
theorem lt_of_below? {bound n : Nat} {ds : List Char} (h : below? bound ds = some n) :
    n < bound := by
  unfold below? at h
  split at h
  · cases h
  · split at h
    · next lt => obtain rfl := Option.some.inj h; exact lt
    · cases h

/-- An integer of 64 bits is read back from its digits. -/
theorem signed?_signedDigits {i : Int} (long : IsLong i) : signed? (signedDigits i) = some i := by
  obtain ⟨lower, upper⟩ := long
  unfold signedDigits
  split
  · next negative =>
    have bound : i.natAbs < longBound / 2 + 1 := by omega
    have back : -((i.natAbs : Nat) : Int) = i := by omega
    simp only [signed?, below?_digits bound]
    exact congrArg some back
  · next positive =>
    have bound : i.natAbs < longBound / 2 := by omega
    have back : Int.ofNat i.natAbs = i := by simp only [Int.ofNat_eq_natCast]; omega
    obtain ⟨c, rest, eq⟩ := List.exists_cons_of_ne_nil (digits_ne_nil i.natAbs)
    have digit : c.isDigit = true := isDigit_of_mem_digits (eq ▸ List.mem_cons_self)
    have read := below?_digits bound
    rw [eq] at read ⊢
    -- the first character is a digit and no sign
    unfold signed?
    split
    · next h => obtain rfl := (List.cons.inj h).1; exact absurd digit (by decide)
    · next h => obtain rfl := (List.cons.inj h).1; exact absurd digit (by decide)
    · rw [read, Option.map_some, back]

/-- What is read is an integer of 64 bits. -/
theorem isLong_of_signed? {cs : List Char} {i : Int} (h : signed? cs = some i) : IsLong i := by
  have positive : 0 < longBound / 2 := by decide
  unfold signed? at h
  split at h
  · obtain ⟨_, read, rfl⟩ := Option.map_eq_some_iff.mp h
    obtain ⟨n, hn, eq⟩ := Option.bind_eq_some_iff.mp read
    obtain rfl := Option.some.inj eq
    have := lt_of_below? hn
    constructor <;> omega
  · obtain ⟨n, hn, rfl⟩ := Option.map_eq_some_iff.mp h
    have := lt_of_below? hn
    constructor <;> simp only [Int.ofNat_eq_natCast] <;> omega
  · obtain ⟨n, hn, rfl⟩ := Option.map_eq_some_iff.mp h
    have := lt_of_below? hn
    constructor <;> simp only [Int.ofNat_eq_natCast] <;> omega

/-- Only digits and a minus sign stand in a number. -/
theorem mark_not_mem_signedDigits {mark : Char} (no_digit : mark.isDigit = false)
    (no_sign : mark ≠ '-') (i : Int) : mark ∉ signedDigits i := by
  have none : ∀ n, mark ∉ digits n := by
    intro n mem
    exact Bool.false_ne_true (no_digit.symm.trans (isDigit_of_mem_digits mem))
  unfold signedDigits
  split
  · simp [none, no_sign]
  · exact none _

/-- No colon stands among the digits of a number. -/
theorem colon_not_mem_signedDigits (i : Int) : ':' ∉ signedDigits i :=
  mark_not_mem_signedDigits rfl (by decide) i

theorem digits_inj {n n' : Nat} (same : digits n = digits n') : n = n' := by
  rw [← value_digits n, same, value_digits]

/-- No two integers have the same digits and sign. -/
theorem signedDigits_inj {i j : Int} (same : signedDigits i = signedDigits j) : i = j := by
  have unsigned : ∀ n n', '-' :: digits n ≠ digits n' := by
    intro n n' eq
    exact absurd (isDigit_of_mem_digits (eq ▸ List.mem_cons_self)) (by decide)
  unfold signedDigits at same
  split at same
  · split at same
    · have := digits_inj (List.cons.inj same).2
      omega
    · exact absurd same (unsigned _ _)
  · split at same
    · exact absurd same.symm (unsigned _ _)
    · have := digits_inj same
      omega

end DeployWatch.Text.Decimal
