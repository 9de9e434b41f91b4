/-
# Bytes that spell characters

A code point is spelled by one to four bytes, each with its own share of the number (`Spells`).
One step of the reader takes a character from its bytes whatever follows them (`step_of_spells`),
and takes nothing else for a character (`spells_of_step`), so the strict reader accepts exactly
what the writer writes (`decode?_eq_some_iff`) and the lossy one agrees with it there
(`decode_encode`).

A byte below 0x80 stands for itself wherever it stands: the reader never takes it along with the
bytes before it, however malformed they are.  So the lossy reading may be cut at any such byte
(`decode_append_of_lt`), and writes its character nowhere else (`mem_of_mem_decode`).
-/

import Mathlib.Data.List.Basic
import DeployWatch.Text.Utf8

namespace DeployWatch.Text.Utf8

/-! ### Bytes by their numbers -/

theorem isContinuation_iff {b : UInt8} :
    isContinuation b = true ↔ 0x80 ≤ b.toNat ∧ b.toNat ≤ 0xBF := by
  simp [isContinuation, UInt8.le_iff_toNat_le]

theorem fitsThree_iff {lead b : UInt8} :
    fitsThree lead b = true ↔
      0x80 ≤ b.toNat ∧ b.toNat ≤ 0xBF ∧ (lead.toNat = 0xE0 → 0xA0 ≤ b.toNat) ∧
        (lead.toNat = 0xED → b.toNat ≤ 0x9F) := by
  unfold fitsThree
  split
  · simp [*, UInt8.le_iff_toNat_le]
    omega
  next notFirst =>
  split
  · simp [*, UInt8.le_iff_toNat_le]
    omega
  next notSurrogate =>
  have first : lead.toNat ≠ 0xE0 := fun eq => notFirst (UInt8.toNat_inj.mp eq)
  have surrogate : lead.toNat ≠ 0xED := fun eq => notSurrogate (UInt8.toNat_inj.mp eq)
  simp [isContinuation_iff, first, surrogate]

theorem fitsFour_iff {lead b : UInt8} :
    fitsFour lead b = true ↔
      0x80 ≤ b.toNat ∧ b.toNat ≤ 0xBF ∧ (lead.toNat = 0xF0 → 0x90 ≤ b.toNat) ∧
        (lead.toNat = 0xF4 → b.toNat ≤ 0x8F) := by
  unfold fitsFour
  split
  · simp [*, UInt8.le_iff_toNat_le]
    omega
  next notFirst =>
  split
  · simp [*, UInt8.le_iff_toNat_le]
    omega
  next notLast =>
  have first : lead.toNat ≠ 0xF0 := fun eq => notFirst (UInt8.toNat_inj.mp eq)
  have last : lead.toNat ≠ 0xF4 := fun eq => notLast (UInt8.toNat_inj.mp eq)
  simp [isContinuation_iff, first, last]

/-! ### The spelling of a code point -/

/-- The bytes that a code point is spelled by: six bits in each but the first, and as few bytes as
possible. -/
inductive Spells : Nat → List UInt8 → Prop where
  | one {n a} : n < 0x80 → UInt8.toNat a = n → Spells n [a]
  | two {n a b} : 0x80 ≤ n → n < 0x800 → UInt8.toNat a = n / 0x40 + 0xC0 →
      UInt8.toNat b = n % 0x40 + 0x80 → Spells n [a, b]
  | three {n a b c} : 0x800 ≤ n → n < 0x10000 → UInt8.toNat a = n / 0x1000 + 0xE0 →
      UInt8.toNat b = n / 0x40 % 0x40 + 0x80 → UInt8.toNat c = n % 0x40 + 0x80 →
      Spells n [a, b, c]
  | four {n a b c d} : 0x10000 ≤ n → n < 0x110000 → UInt8.toNat a = n / 0x40000 + 0xF0 →
      UInt8.toNat b = n / 0x1000 % 0x40 + 0x80 → UInt8.toNat c = n / 0x40 % 0x40 + 0x80 →
      UInt8.toNat d = n % 0x40 + 0x80 → Spells n [a, b, c, d]

/-- Every character has its code point spelled. -/
theorem spells_utf8EncodeChar (c : Char) : Spells c.toNat (String.utf8EncodeChar c) := by
  have valid : c.toNat.isValidChar := c.valid
  have byte {m k : Nat} (eq : m = k) (small : k < 256) : (UInt8.ofNat m).toNat = k := by
    simpa [eq] using Nat.mod_eq_of_lt small
  unfold String.utf8EncodeChar
  simp only [show c.val.toNat = c.toNat from rfl]
  generalize c.toNat = n at valid
  simp only [Nat.isValidChar] at valid
  split
  · exact .one (by omega) (byte rfl (by omega))
  split
  · exact .two (by omega) (by omega) (byte (by omega) (by omega)) (byte (by omega) (by omega))
  split
  · exact .three (by omega) (by omega) (byte (by omega) (by omega)) (byte (by omega) (by omega))
      (byte (by omega) (by omega))
  · exact .four (by omega) (by omega) (byte (by omega) (by omega)) (byte (by omega) (by omega))
      (byte (by omega) (by omega)) (byte (by omega) (by omega))

/-- A code point is spelled in one way only. -/
theorem Spells.unique {n : Nat} {bytes bytes' : List UInt8} (h : Spells n bytes)
    (h' : Spells n bytes') : bytes = bytes' := by
  cases h <;> cases h' <;> first
    | omega
    | simp only [List.cons.injEq, and_true, ← UInt8.toNat_inj]
      omega

/-! ### One step of the reader -/

/-- A step takes a character from the bytes that spell it, whatever follows them. -/
theorem step_of_spells {n : Nat} {lead : UInt8} {tail : List UInt8} (valid : n.isValidChar)
    (h : Spells n (lead :: tail)) (rest : List UInt8) :
    step lead (tail ++ rest) = (some (Char.ofNat n), tail.length) := by
  simp only [Nat.isValidChar] at valid
  unfold step
  simp only [UInt8.lt_iff_toNat_lt, UInt8.le_iff_toNat_le, UInt8.reduceToNat, Bool.and_eq_true,
    decide_eq_true_eq, isContinuation_iff, fitsThree_iff, fitsFour_iff, payload]
  cases h with
  | one low first =>
    rw [if_pos (by omega), first]
    rfl
  | two low high first second =>
    simp only [List.cons_append, List.nil_append]
    rw [if_neg (by omega), if_pos (by omega), if_pos (by omega)]
    congr 3
    omega
  | three low high first second third =>
    simp only [List.cons_append, List.nil_append]
    rw [if_neg (by omega), if_neg (by omega), if_pos (by omega), if_pos (by omega),
      if_pos (by omega)]
    congr 3
    omega
  | four low high first second third fourth =>
    simp only [List.cons_append, List.nil_append]
    rw [if_neg (by omega), if_neg (by omega), if_neg (by omega), if_pos (by omega),
      if_pos (by omega), if_pos (by omega), if_pos (by omega)]
    congr 3
    omega

/-- What a step takes for a character is spelled by the bytes that it takes. -/
theorem exists_spells_of_step {lead : UInt8} {rest : List UInt8} {c : Char} {taken : Nat}
    (h : step lead rest = (some c, taken)) :
    ∃ n, n.isValidChar ∧ Char.ofNat n = c ∧ Spells n (lead :: rest.take taken) := by
  have bound := lead.toNat_lt
  unfold step at h
  simp only [UInt8.lt_iff_toNat_lt, UInt8.le_iff_toNat_le, UInt8.reduceToNat, Bool.and_eq_true,
    decide_eq_true_eq, isContinuation_iff, fitsThree_iff, fitsFour_iff, payload] at h
  repeat' split at h
  -- of the fifteen ways through a step, four end with a character
  all_goals simp only [Prod.mk.injEq, reduceCtorEq, false_and, Option.some.injEq] at h
  all_goals
    obtain ⟨rfl, rfl⟩ := h
    refine ⟨_, ?_, rfl, ?_⟩
  · exact Or.inl (by omega)
  · exact .one (by omega) rfl
  · exact Or.inl (by omega)
  · exact .two (by omega) (by omega) (by omega) (by omega)
  · simp only [Nat.isValidChar]
    omega
  · exact .three (by omega) (by omega) (by omega) (by omega) (by omega)
  · simp only [Nat.isValidChar]
    omega
  · exact .four (by omega) (by omega) (by omega) (by omega) (by omega) (by omega)

theorem toNat_ofNat_of_isValidChar {n : Nat} (valid : n.isValidChar) :
    (Char.ofNat n).toNat = n := by
  have eq : Char.ofNat n = Char.ofNatAux n valid := dif_pos valid
  rw [eq]
  rfl

theorem step_of_utf8EncodeChar {c : Char} {lead : UInt8} {tail : List UInt8}
    (h : String.utf8EncodeChar c = lead :: tail) (rest : List UInt8) :
    step lead (tail ++ rest) = (some c, tail.length) := by
  rw [step_of_spells c.valid (h ▸ spells_utf8EncodeChar c) rest]
  exact congrArg (some ·, _) c.ofNat_toNat

theorem utf8EncodeChar_of_step {lead : UInt8} {rest : List UInt8} {c : Char} {taken : Nat}
    (h : step lead rest = (some c, taken)) : String.utf8EncodeChar c = lead :: rest.take taken := by
  obtain ⟨n, valid, rfl, spelled⟩ := exists_spells_of_step h
  have := spells_utf8EncodeChar (Char.ofNat n)
  rw [toNat_ofNat_of_isValidChar valid] at this
  exact this.unique spelled

theorem step_le_length (lead : UInt8) (rest : List UInt8) : (step lead rest).2 ≤ rest.length := by
  unfold step
  repeat' split
  all_goals simp

/-! ### Characters of one byte -/

@[simp]
theorem decode_nil : decode [] = [] := by
  rw [decode]

theorem decode_cons (lead : UInt8) (rest : List UInt8) :
    decode (lead :: rest) =
      (step lead rest).1.getD replacement :: decode (rest.drop (step lead rest).2) := by
  rw [decode]

section OneByte

variable {b : UInt8} (small : b.toNat < 0x80)

include small

/-- A byte below 0x80 is none of those that may follow a lead, so a step never takes it along. -/
theorem step_append_of_lt (lead : UInt8) (front rest : List UInt8) :
    step lead (front ++ b :: rest) = step lead front := by
  have notContinuation : isContinuation b = false := by
    rw [Bool.eq_false_iff, ne_eq, isContinuation_iff]
    omega
  have notThree : fitsThree lead b = false := by
    rw [Bool.eq_false_iff, ne_eq, fitsThree_iff]
    omega
  have notFour : fitsFour lead b = false := by
    rw [Bool.eq_false_iff, ne_eq, fitsFour_iff]
    omega
  match front with
  | [] => simp [step, notContinuation, notThree, notFour]
  | [x] => simp [step, notContinuation]
  | [x, y] => simp [step, notContinuation]
  | x :: y :: z :: more => simp [step]

theorem isValidChar_of_lt : b.toNat.isValidChar := Or.inl (by omega)

theorem step_of_lt (rest : List UInt8) : step b rest = (some (Char.ofNat b.toNat), 0) :=
  step_of_spells (isValidChar_of_lt small) (.one small rfl) rest

/-- The lossy reading may be cut at a byte below 0x80, whatever stands around it. -/
theorem decode_append_of_lt (front rest : List UInt8) :
    decode (front ++ b :: rest) = decode front ++ Char.ofNat b.toNat :: decode rest := by
  induction front using decode.induct with
  | case1 =>
    rw [List.nil_append, decode_cons, step_of_lt small]
    simp
  | case2 lead front ih =>
    rw [List.cons_append, decode_cons, decode_cons, step_append_of_lt small,
      List.drop_append_of_le_length (step_le_length lead front), ih, List.cons_append]

/-- The character of a byte below 0x80 is read only where that byte stands. -/
theorem mem_of_mem_decode {bytes : List UInt8} (mem : Char.ofNat b.toNat ∈ decode bytes) :
    b ∈ bytes := by
  induction bytes using decode.induct with
  | case1 => simp at mem
  | case2 lead rest ih =>
    rw [decode_cons] at mem
    rcases List.mem_cons.mp mem with here | later
    · have code := toNat_ofNat_of_isValidChar (isValidChar_of_lt small)
      cases step_eq : step lead rest with | mk c? taken =>
      cases c? with
      | none =>
        rw [here, step_eq] at code
        have : replacement.toNat = b.toNat := code
        exact absurd (this ▸ small) (by decide)
      | some c =>
        obtain rfl : Char.ofNat b.toNat = c := by simpa [step_eq] using here
        have spelled := spells_utf8EncodeChar (Char.ofNat b.toNat)
        rw [code] at spelled
        have eq := (utf8EncodeChar_of_step step_eq).symm.trans (spelled.unique (.one small rfl))
        exact (List.cons.inj eq).1 ▸ List.mem_cons_self
    · exact List.mem_cons_of_mem _ (List.mem_of_mem_drop (ih later))

end OneByte

/-! ### Reading what was written -/

/-- The bytes of a character, the first of them apart. -/
theorem exists_utf8EncodeChar_eq (c : Char) : ∃ lead tail, String.utf8EncodeChar c = lead :: tail :=
  List.exists_cons_of_ne_nil String.utf8EncodeChar_ne_nil

@[simp]
theorem encode_cons (c : Char) (cs : List Char) :
    encode (c :: cs) = String.utf8EncodeChar c ++ encode cs := by
  simp [encode]

theorem encode_append (cs ds : List Char) : encode (cs ++ ds) = encode cs ++ encode ds := by
  simp [encode]

/-- The lossy reading of a text's bytes is the text. -/
theorem decode_encode (cs : List Char) : decode (encode cs) = cs := by
  induction cs with
  | nil => exact decode_nil
  | cons c cs ih =>
    obtain ⟨lead, tail, spelled⟩ := exists_utf8EncodeChar_eq c
    rw [encode_cons, spelled, List.cons_append, decode_cons, step_of_utf8EncodeChar spelled,
      List.drop_left, ih, Option.getD_some]

theorem decode?_encode (cs : List Char) : decode? (encode cs) = some cs := by
  induction cs with
  | nil => simp [encode, decode?]
  | cons c cs ih =>
    obtain ⟨lead, tail, spelled⟩ := exists_utf8EncodeChar_eq c
    rw [encode_cons, spelled, List.cons_append, decode?, step_of_utf8EncodeChar spelled]
    simp only [List.drop_left, ih, Option.map_some]

theorem eq_encode_of_decode? {bytes : List UInt8} {cs : List Char} (h : decode? bytes = some cs) :
    bytes = encode cs := by
  induction bytes using decode?.induct generalizing cs with
  | case1 =>
    rw [decode?] at h
    obtain rfl := Option.some.inj h
    rfl
  | case2 lead rest c read ih =>
    rw [decode?, read] at h
    obtain ⟨cs, later, rfl⟩ := Option.map_eq_some_iff.mp h
    have spelled : String.utf8EncodeChar c = lead :: rest.take (step lead rest).2 :=
      utf8EncodeChar_of_step (Prod.ext read rfl)
    rw [encode_cons, spelled, ← ih later, List.cons_append, List.take_append_drop]
  | case3 lead rest malformed =>
    rw [decode?, malformed] at h
    exact nomatch h

/-- **Bytes are text just if they are the bytes of a text.** -/
theorem decode?_eq_some_iff {bytes : List UInt8} {cs : List Char} :
    decode? bytes = some cs ↔ bytes = encode cs := by
  constructor
  · exact eq_encode_of_decode?
  · rintro rfl
    exact decode?_encode cs

end DeployWatch.Text.Utf8
