/-
# The lines that have a counter

A line of the deployment tool has a counter just if it can be taken apart into a name without a
bar, a bar, blanks, digits, a slash, digits, blanks, another bar and anything, where both numbers
fit a 32-bit word (`CountedLine`).  A line can be taken apart in one way only
(`CountedLine.eq_of_chars_eq`), so the counter does not depend on the name nor on what follows the
column.  The main statement is `StepCount.ofLine?_eq_some_iff_counted`.
-/

import Mathlib.Data.List.Induction
import Mathlib.Data.Nat.Digits.Defs
import DeployWatch.Deploy.Progress
import DeployWatch.Proofs.Text.Runs

namespace DeployWatch

open DeployWatch.Text

/-! ### Lines taken apart -/

/-- A line with a counter, taken apart:  `label|lead current/total trail|rest`. -/
@[ext]
structure CountedLine where
  /-- The name in front of the first bar. -/
  label : List Char
  /-- The blanks before the counter. -/
  lead : List Char
  /-- The digits before the slash. -/
  current : List Char
  /-- The digits after the slash. -/
  total : List Char
  /-- The blanks after the counter. -/
  trail : List Char
  /-- What follows the second bar. -/
  rest : List Char
  label_plain : '|' ∉ label
  lead_blank : ∀ c ∈ lead, isBlank c
  current_ne_nil : current ≠ []
  current_digits : ∀ c ∈ current, c.isDigit
  total_ne_nil : total ≠ []
  total_digits : ∀ c ∈ total, c.isDigit
  trail_blank : ∀ c ∈ trail, isBlank c

/-- The number written by digits, the last of them the lowest. -/
def numeral (ds : List Char) : Nat :=
  Nat.ofDigits 10 (ds.reverse.map fun c => c.toNat - '0'.toNat)

theorem value_eq_numeral (ds : List Char) : Decimal.value ds = numeral ds := by
  induction ds using List.reverseRecOn with
  | nil => rfl
  | append_singleton ds d ih =>
    rw [Decimal.value, Nat.ofDigitChars_append, Nat.ofDigitChars_cons, Nat.ofDigitChars_nil,
      numeral, List.reverse_append, List.reverse_singleton, List.singleton_append, List.map_cons,
      Nat.ofDigits_cons, ← numeral, ← ih]
    exact Nat.add_comm _ _

theorem ne_nil_of_below? {bound n : Nat} {ds : List Char}
    (h : Decimal.below? bound ds = some n) : ds ≠ [] := by
  rintro rfl
  exact nomatch h

/-- Digits are read just if there are some, and their number fits. -/
theorem below?_eq_some_iff {bound n : Nat} {ds : List Char} (ne_nil : ds ≠ [])
    (digits : ∀ c ∈ ds, c.isDigit) :
    Decimal.below? bound ds = some n ↔ numeral ds = n ∧ n < bound := by
  have run : (ds.isEmpty || !ds.all Char.isDigit) = false := by
    simpa [ne_nil] using digits
  rw [Decimal.below?, if_neg (by simp [run]), value_eq_numeral]
  split
  · next fits =>
    rw [Option.some_inj]
    exact ⟨fun eq => ⟨eq, eq ▸ fits⟩, fun ⟨eq, _⟩ => eq⟩
  · next exceeds =>
    constructor
    · intro none
      exact nomatch none
    · rintro ⟨rfl, fits⟩
      exact absurd fits exceeds

namespace CountedLine

variable (parts : CountedLine)

/-- What follows the blanks before the counter. -/
def counter : List Char :=
  parts.current ++ '/' :: (parts.total ++ (parts.trail ++ '|' :: parts.rest))

/-- The line. -/
def chars : List Char := parts.label ++ '|' :: (parts.lead ++ parts.counter)

theorem label_run : LeadingRun (· ≠ '|') parts.label ('|' :: (parts.lead ++ parts.counter)) :=
  leadingRun_mark parts.label_plain _

theorem lead_run : LeadingRun isBlank parts.lead parts.counter where
  all := parts.lead_blank
  stops c head := by
    obtain ⟨d, ds, digits⟩ := List.exists_cons_of_ne_nil parts.current_ne_nil
    obtain rfl : d = c := by simpa [counter, digits] using head
    exact isBlank_eq_false_of_isDigit (parts.current_digits d (by simp [digits]))

theorem current_run : LeadingRun Char.isDigit parts.current
    ('/' :: (parts.total ++ (parts.trail ++ '|' :: parts.rest))) where
  all := parts.current_digits
  stops c head := by
    obtain rfl : '/' = c := by simpa using head
    rfl

theorem total_run :
    LeadingRun Char.isDigit parts.total (parts.trail ++ '|' :: parts.rest) where
  all := parts.total_digits
  stops c head := by
    cases blanks : parts.trail with
    | nil =>
      obtain rfl : '|' = c := by simpa [blanks] using head
      rfl
    | cons d ds =>
      obtain rfl : d = c := by simpa [blanks] using head
      have blank := parts.trail_blank d (by simp [blanks])
      by_contra digit
      rw [isBlank_eq_false_of_isDigit (by simpa using digit)] at blank
      exact nomatch blank

theorem trail_run : LeadingRun isBlank parts.trail ('|' :: parts.rest) where
  all := parts.trail_blank
  stops c head := by
    obtain rfl : '|' = c := by simpa using head
    rfl

/-- The column between the two bars. -/
def column : List Char :=
  parts.lead ++ (parts.current ++ '/' :: (parts.total ++ parts.trail))

theorem column_append : parts.column ++ '|' :: parts.rest = parts.lead ++ parts.counter := by
  simp [column, counter]

theorem column_run : LeadingRun (· ≠ '|') parts.column ('|' :: parts.rest) := by
  refine leadingRun_mark ?_ _
  simp only [column, List.mem_append, List.mem_cons]
  rintro (mem | mem | mem | mem | mem)
  · exact nomatch parts.lead_blank _ mem
  · exact nomatch parts.current_digits _ mem
  · exact nomatch mem
  · exact nomatch parts.total_digits _ mem
  · exact nomatch parts.trail_blank _ mem

/-- A line can be taken apart in one way only. -/
theorem eq_of_chars_eq {parts parts' : CountedLine} (same : parts.chars = parts'.chars) :
    parts = parts' := by
  obtain ⟨label, same⟩ := parts.label_run.unique parts'.label_run same
  obtain ⟨lead, same⟩ := parts.lead_run.unique parts'.lead_run (List.cons.inj same).2
  obtain ⟨current, same⟩ := parts.current_run.unique parts'.current_run same
  obtain ⟨total, same⟩ := parts.total_run.unique parts'.total_run (List.cons.inj same).2
  obtain ⟨trail, same⟩ := parts.trail_run.unique parts'.trail_run same
  exact CountedLine.ext label lead current total trail (List.cons.inj same).2

end CountedLine

namespace StepCount

theorem read?_chars (parts : CountedLine) :
    read? parts.chars = (do
      let current ← Decimal.below? Decimal.wordBound parts.current
      let total ← Decimal.below? Decimal.wordBound parts.total
      some ⟨current, total⟩) := by
  simp only [read?, CountedLine.chars, parts.label_run.dropWhile_append]
  simp only [parts.lead_run.dropWhile_append]
  simp only [CountedLine.counter, parts.current_run.dropWhile_append,
    parts.current_run.takeWhile_append]
  simp only [parts.total_run.dropWhile_append, parts.total_run.takeWhile_append,
    parts.trail_run.dropWhile_append]

/-- A line that is read can be taken apart. -/
theorem exists_chars_eq_of_read? {line : List Char} {s : StepCount} (h : read? line = some s) :
    ∃ parts : CountedLine, parts.chars = line := by
  unfold read? at h
  split at h
  · exact nomatch h
  next bar column bars =>
  obtain rfl : bar = '|' := by
    simpa using (leadingRun_takeWhile (· ≠ '|') line).stops bar (by rw [bars]; rfl)
  dsimp only at h
  split at h
  · next after slash =>
    split at h
    · next rest closing =>
      obtain ⟨n, current, h⟩ := Option.bind_eq_some_iff.mp h
      obtain ⟨m, total, -⟩ := Option.bind_eq_some_iff.mp h
      refine ⟨{
        label := line.takeWhile (· ≠ '|')
        lead := column.takeWhile isBlank
        current := (column.dropWhile isBlank).takeWhile Char.isDigit
        total := after.takeWhile Char.isDigit
        trail := (after.dropWhile Char.isDigit).takeWhile isBlank
        rest
        label_plain := fun mem => by
          simpa using (leadingRun_takeWhile (· ≠ '|') line).all '|' mem
        lead_blank := (leadingRun_takeWhile _ _).all
        current_ne_nil := ne_nil_of_below? current
        current_digits := (leadingRun_takeWhile _ _).all
        total_ne_nil := ne_nil_of_below? total
        total_digits := (leadingRun_takeWhile _ _).all
        trail_blank := (leadingRun_takeWhile _ _).all }, ?_⟩
      simp only [CountedLine.chars, CountedLine.counter]
      rw [← closing, List.takeWhile_append_dropWhile, List.takeWhile_append_dropWhile, ← slash,
        List.takeWhile_append_dropWhile, List.takeWhile_append_dropWhile, ← bars,
        List.takeWhile_append_dropWhile]
    · exact nomatch h
  · exact nomatch h

theorem read?_chars_eq_some_iff {parts : CountedLine} {n m : Nat} :
    read? parts.chars = some ⟨n, m⟩ ↔
      (numeral parts.current = n ∧ n < Decimal.wordBound) ∧
        numeral parts.total = m ∧ m < Decimal.wordBound := by
  rw [read?_chars, ← below?_eq_some_iff parts.current_ne_nil parts.current_digits,
    ← below?_eq_some_iff parts.total_ne_nil parts.total_digits]
  constructor
  · intro h
    obtain ⟨n', current, h⟩ := Option.bind_eq_some_iff.mp h
    obtain ⟨m', total, h⟩ := Option.bind_eq_some_iff.mp h
    obtain ⟨rfl, rfl⟩ := StepCount.mk.inj (Option.some.inj h)
    exact ⟨current, total⟩
  · rintro ⟨current, total⟩
    rw [current, total]
    rfl

/-- The name in front of the first bar does not matter. -/
theorem read?_eq_of_label {label label' : List Char} (plain : '|' ∉ label) (plain' : '|' ∉ label')
    (tail : List Char) : read? (label ++ '|' :: tail) = read? (label' ++ '|' :: tail) := by
  rw [read?, read?, (leadingRun_mark plain tail).dropWhile_append,
    (leadingRun_mark plain' tail).dropWhile_append]

theorem read?_of_rest {label column rest : List Char} (plain : '|' ∉ label)
    (single : '|' ∉ column) {s : StepCount}
    (h : read? (label ++ '|' :: (column ++ '|' :: rest)) = some s) (rest' : List Char) :
    read? (label ++ '|' :: (column ++ '|' :: rest')) = some s := by
  obtain ⟨parts, same⟩ := exists_chars_eq_of_read? h
  obtain ⟨label_eq, tail⟩ := parts.label_run.unique (leadingRun_mark plain _) same
  obtain ⟨column_eq, -⟩ := parts.column_run.unique (leadingRun_mark single rest)
    (parts.column_append.trans (List.cons.inj tail).2)
  have line : { parts with rest := rest' }.chars = label ++ '|' :: (column ++ '|' :: rest') := by
    rw [CountedLine.chars, ← CountedLine.column_append, ← label_eq, ← column_eq]
    rfl
  rw [← line, read?_chars, ← h, ← same, read?_chars]

/-- What follows the second bar does not matter. -/
theorem read?_eq_of_rest {label column : List Char} (plain : '|' ∉ label) (single : '|' ∉ column)
    (rest rest' : List Char) : read? (label ++ '|' :: (column ++ '|' :: rest)) =
      read? (label ++ '|' :: (column ++ '|' :: rest')) :=
  Option.ext fun _ => ⟨fun h => read?_of_rest plain single h rest',
    fun h => read?_of_rest plain single h rest⟩

/-- **Just the lines that can be taken apart have a counter.**  The two numbers are those of the
digits, and both fit a 32-bit word.  A line can be taken apart in one way only, and neither the
name in front of the first bar nor what follows the second one matters. -/
theorem ofLine?_eq_some_iff_counted :
    (∀ (line : String) (n m : Nat), ofLine? line = some ⟨n, m⟩ ↔
      ∃ parts : CountedLine, parts.chars = line.toList ∧
        numeral parts.current = n ∧ numeral parts.total = m ∧
        n ≤ 2 ^ 32 - 1 ∧ m ≤ 2 ^ 32 - 1) ∧
    (∀ parts parts' : CountedLine, parts.chars = parts'.chars → parts = parts') ∧
    (∀ label label' tail : List Char, '|' ∉ label → '|' ∉ label' →
      ofLine? (String.ofList (label ++ '|' :: tail)) =
        ofLine? (String.ofList (label' ++ '|' :: tail))) ∧
    ∀ label column rest rest' : List Char, '|' ∉ label → '|' ∉ column →
      ofLine? (String.ofList (label ++ '|' :: (column ++ '|' :: rest))) =
        ofLine? (String.ofList (label ++ '|' :: (column ++ '|' :: rest'))) := by
  have fits (n : Nat) : n < Decimal.wordBound ↔ n ≤ 2 ^ 32 - 1 := by
    have : Decimal.wordBound = 2 ^ 32 := rfl
    omega
  refine ⟨fun line n m => ⟨fun h => ?_, ?_⟩, fun _ _ => CountedLine.eq_of_chars_eq,
    fun label label' tail plain plain' => ?_, fun label column rest rest' plain single => ?_⟩
  · obtain ⟨parts, same⟩ := exists_chars_eq_of_read? h
    rw [ofLine?, ← same, read?_chars_eq_some_iff, fits, fits] at h
    obtain ⟨⟨current, fits_current⟩, total, fits_total⟩ := h
    exact ⟨parts, same, current, total, fits_current, fits_total⟩
  · rintro ⟨parts, same, current, total, fits_current, fits_total⟩
    rw [ofLine?, ← same, read?_chars_eq_some_iff, fits, fits]
    exact ⟨⟨current, fits_current⟩, total, fits_total⟩
  · simpa [ofLine?] using read?_eq_of_label plain plain' tail
  · simpa [ofLine?] using read?_eq_of_rest plain single rest rest'

/-- Zeros in front and blanks do not matter; the largest word is read, the next number is not. -/
theorem counted_up_to_the_word_bound :
    ofLine? "net|\u00a0\u3000007/4294967295 |done" = some ⟨7, 4294967295⟩ ∧
    ofLine? "net|7/4294967296|" = none ∧
    ofLine? "a b|7/8|" = ofLine? "|7/8|" ∧
    ofLine? "|7/8|" = ofLine? "|7/8|x|9/9|" := by
  obtain ⟨counted, -, label, rest⟩ := ofLine?_eq_some_iff_counted
  refine ⟨?_, by decide +kernel, ?_, ?_⟩
  · refine (counted _ _ _).mpr ⟨{
      label := "net".toList
      lead := "\u00a0\u3000".toList
      current := "007".toList
      total := "4294967295".toList
      trail := " ".toList
      rest := "done".toList
      label_plain := by decide +kernel
      lead_blank := List.all_eq_true.mp (by decide +kernel)
      current_ne_nil := by decide +kernel
      current_digits := List.all_eq_true.mp (by decide +kernel)
      total_ne_nil := by decide +kernel
      total_digits := List.all_eq_true.mp (by decide +kernel)
      trail_blank := List.all_eq_true.mp (by decide +kernel) }, ?_⟩
    decide +kernel
  · exact label "a b".toList [] "7/8|".toList (by decide +kernel) (by decide +kernel)
  · exact rest [] "7/8".toList [] "x|9/9|".toList (by decide +kernel) (by decide +kernel)

end StepCount

end DeployWatch
