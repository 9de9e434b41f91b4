/-
# Texts are read back from basic strings

Whatever characters a text has, control characters among them, the basic string it is written as
is read as the text (`readString_writeBasic`).  Each character is read back from what it is
written as (`readBasic_writeChar`); for an escape with eight hexadecimal digits this is so because
the first digits of a number are the quotient of a power of sixteen (`foldl_hexDigits`).
-/

import Mathlib
import DeployWatch.Toml.Strings

namespace DeployWatch.Toml

open DeployWatch.Text

/-! ### Hexadecimal digits -/

theorem hexValue?_hexDigit : ∀ d < 16, Percent.hexValue? (Percent.hexDigit d) = some d := by
  decide

theorem mapM_hexValue?_hexDigit {ds : List Nat} (small : ∀ d ∈ ds, d < 16) :
    (ds.map Percent.hexDigit).mapM Percent.hexValue? = some ds := by
  induction ds with
  | nil => rfl
  | cons d ds ih =>
    obtain ⟨here, small⟩ := List.forall_mem_cons.mp small
    rw [List.map_cons, List.mapM_cons, hexValue?_hexDigit d here, ih small]
    rfl

/-- The eight digits of a character's code point. -/
def hexDigits (n : Nat) : List Nat := (List.range 8).map fun i => n >>> (4 * (7 - i)) % 16

theorem foldl_hexDigits_take {n : Nat} (small : n < 16 ^ 8) {k : Nat} (le : k ≤ 8) :
    ((List.range k).map fun i => n >>> (4 * (7 - i)) % 16).foldl (fun n d => 16 * n + d) 0 =
      n / 16 ^ (8 - k) := by
  induction k with
  | zero => rw [Nat.div_eq_of_lt small]; rfl
  | succ k ih =>
    have power : 16 ^ (8 - k) = 16 ^ (7 - k) * 16 := by
      rw [← Nat.pow_succ]
      congr 1
      omega
    have digit : 2 ^ (4 * (7 - k)) = 16 ^ (7 - k) := Nat.pow_mul 2 4 (7 - k)
    have here : 8 - (k + 1) = 7 - k := by omega
    rw [List.range_succ, List.map_append, List.foldl_append, ih (Nat.le_of_succ_le le),
      List.map_cons, List.map_nil, List.foldl_cons, List.foldl_nil, Nat.shiftRight_eq_div_pow,
      digit, here, power, ← Nat.div_div_eq_div_mul]
    exact Nat.div_add_mod _ 16

theorem foldl_hexDigits {n : Nat} (small : n < 16 ^ 8) :
    (hexDigits n).foldl (fun n d => 16 * n + d) 0 = n := by
  rw [hexDigits, foldl_hexDigits_take small (Nat.le_refl 8), Nat.sub_self, Nat.pow_zero,
    Nat.div_one]

theorem hexChar?_hexDigits (c : Char) (rest : List Char) :
    hexChar? 8 ((hexDigits c.toNat).map Percent.hexDigit ++ rest) = some c := by
  have valid : c.toNat.isValidChar := c.valid
  have small : c.toNat < 16 ^ 8 := by
    have := c.toNat_val ▸ c.val.toNat_lt
    omega
  have length : ((hexDigits c.toNat).map Percent.hexDigit).length = 8 := by simp [hexDigits]
  have digits : ∀ d ∈ hexDigits c.toNat, d < 16 := by
    intro d mem
    obtain ⟨i, -, rfl⟩ := List.mem_map.mp mem
    exact Nat.mod_lt _ (by decide)
  rw [hexChar?, List.take_left' length, length, if_neg (Nat.lt_irrefl 8),
    mapM_hexValue?_hexDigit digits]
  simp only [Option.bind_eq_bind, Option.bind_some, foldl_hexDigits small, if_pos valid,
    Char.ofNat_toNat]

/-! ### Basic strings -/

/-- A character of a text is read back from what it is written as. -/
theorem readBasic_writeChar (c : Char) (rest : List Char) :
    readBasic (writeChar c ++ rest) = (readBasic rest).map fun r => (c :: r.1, r.2) := by
  unfold writeChar
  split
  next quote =>
    subst quote
    rw [List.cons_append, readBasic]
    rfl
  next quote =>
    split
    next backslash =>
      subst backslash
      rw [List.cons_append, readBasic]
      rfl
    next backslash =>
      split
      next visible =>
        rw [List.singleton_append, readBasic, if_pos visible]
        · exact quote
        · exact backslash
      next =>
        have escape : escape? ('U' :: ((hexDigits c.toNat).map Percent.hexDigit ++ rest)) =
            some (c, 9) := by
          rw [escape?, hexChar?_hexDigits]
          rfl
        have drop : ('U' :: ((hexDigits c.toNat).map Percent.hexDigit ++ rest)).drop 9 = rest := by
          rw [List.drop_succ_cons, List.drop_left' (by simp [hexDigits])]
        have digits : ((List.range 8).map fun i =>
            Percent.hexDigit (c.toNat >>> (4 * (7 - i)) % 16)) =
            (hexDigits c.toNat).map Percent.hexDigit := by
          rw [hexDigits, List.map_map]
          rfl
        rw [digits, List.append_assoc, List.cons_append, readBasic]
        simp only [List.singleton_append, escape, drop]

theorem readBasic_flatMap (text rest : List Char) :
    readBasic (text.flatMap writeChar ++ '"' :: rest) = some (text, rest) := by
  induction text with
  | nil => rw [List.flatMap_nil, List.nil_append, readBasic]
  | cons c text ih =>
    rw [List.flatMap_cons, List.append_assoc, readBasic_writeChar, ih]
    rfl

/-- What a character is written as does not begin with a quote. -/
theorem head?_writeChar (c : Char) : ∃ d cs, writeChar c = d :: cs ∧ d ≠ '"' := by
  unfold writeChar
  split
  · exact ⟨_, _, rfl, by decide⟩
  next quote =>
    split
    · exact ⟨_, _, rfl, by decide⟩
    · split
      · exact ⟨c, [], rfl, quote⟩
      · exact ⟨_, _, rfl, by decide⟩

/-- Any text is read back from the basic string it is written as, when no quote follows. -/
theorem readString_writeBasic (text : List Char) {rest : List Char}
    (closed : rest.head? ≠ some '"') :
    readString (writeBasic text ++ rest) = some (String.ofList text, rest) := by
  have read := readBasic_flatMap text rest
  have chars : writeBasic text ++ rest = '"' :: (text.flatMap writeChar ++ '"' :: rest) := by
    simp [writeBasic]
  rw [chars]
  unfold readString
  split
  next after eq =>
    -- three quotes would open a string over several lines
    exfalso
    have eq := (List.cons.inj eq).2
    cases text with
    | nil =>
      have : rest = '"' :: after := (List.cons.inj eq).2
      exact closed (this ▸ rfl)
    | cons c text =>
      obtain ⟨d, cs, written, noQuote⟩ := head?_writeChar c
      rw [List.flatMap_cons, written] at eq
      exact noQuote (List.cons.inj eq).1
  next eq =>
    rw [← (List.cons.inj eq).2, read]
    rfl
  next eq => exact absurd (List.cons.inj eq).1 (by decide)
  next eq => exact absurd (List.cons.inj eq).1 (by decide)
  next basic _ _ => exact absurd rfl (basic _)

end DeployWatch.Toml
