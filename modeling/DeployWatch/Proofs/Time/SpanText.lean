/-
# Spans are read back from their text

A span is written as portions, its seconds split over the units from years to seconds and its
nanoseconds over the units below (`Span.portions`).  Whatever the units are, the portions add up
to what was split (`sum_amount_portionsOf`), so that it does not matter that a year and a month
are no whole number of days.  A portion is read back from its number and its unit's name
(`Span.readGroup?_chars`), the portions one after the other (`Span.readGroups?_flatMap`), and
since no sum on the way exceeds the whole, every sum fits (`Span.addGroups?_group`).  The main
result is `Span.read?_text`.
-/

import Mathlib
import DeployWatch.Proofs.Text.Decimal
import DeployWatch.Proofs.Text.Runs
import DeployWatch.Time.SpanText

namespace DeployWatch.Time

open DeployWatch.Text

/-! ### Characters of numbers and of names -/

/-- A letter of a unit's name ends a number. -/
theorem isNumberChar_eq_false_of_isUnitChar {c : Char} (letter : Span.isUnitChar c) :
    Span.isNumberChar c = false := by
  have bounds :
      (65 ≤ c.toNat ∧ c.toNat ≤ 90) ∨ (97 ≤ c.toNat ∧ c.toNat ≤ 122) ∨ c.toNat = 181 := by
    simp only [Span.isUnitChar, Char.isAlpha, Char.isUpper, Char.isLower, Bool.or_eq_true,
      Bool.and_eq_true, decide_eq_true_eq, UInt32.le_iff_toNat_le] at letter
    rcases letter with (upper | lower) | rfl
    · exact .inl upper
    · exact .inr (.inl lower)
    · exact .inr (.inr rfl)
  have blank : ∀ n ∈ blankCodes,
      ¬((65 ≤ n ∧ n ≤ 90) ∨ (97 ≤ n ∧ n ≤ 122) ∨ n = 181) := by decide
  rw [Span.isNumberChar, Bool.or_eq_false_iff]
  constructor
  · rw [← Bool.not_eq_true]
    intro digit
    have : 48 ≤ c.toNat ∧ c.toNat ≤ 57 := by
      simpa [Char.isDigit, UInt32.le_iff_toNat_le] using digit
    omega
  · rw [isBlank, ← Bool.not_eq_true, List.contains_iff_mem]
    exact fun mem => blank _ mem bounds

/-! ### Portions -/

/-- The name for so many units; a word has a plural. -/
def unitText (name : String) (isWord : Bool) (count : Nat) : String :=
  name ++ if isWord && count > 1 then "s" else ""

/-- A unit, and the name it is written under: letters that are read as the unit, for any number of
units. -/
structure Denomination where
  unit : TimeUnit
  /-- The name of one unit. -/
  name : String
  /-- The name is a word with a plural. -/
  isWord : Bool
  named : ∀ n, TimeUnit.ofName? (unitText name isWord n) = some unit
  letters : ∀ n, (unitText name isWord n).toList.all Span.isUnitChar

namespace Denomination

/-- The name for so many units. -/
def written (d : Denomination) (count : Nat) : String := unitText d.name d.isWord count

theorem exists_cons (d : Denomination) (n : Nat) : ∃ c cs, (d.written n).toList = c :: cs := by
  refine List.exists_cons_of_ne_nil fun empty => ?_
  have none : TimeUnit.ofName? "" = none := by decide
  have named := d.named n
  rw [← written, String.toList_eq_nil_iff.mp empty, none] at named
  exact nomatch named

/-- A unit that is written under the same name for any number. -/
def symbol (unit : TimeUnit) (name : String) (named : TimeUnit.ofName? name = some unit)
    (letters : name.toList.all Span.isUnitChar) : Denomination where
  unit
  name
  isWord := false
  named n := by simpa [unitText] using named
  letters n := by simpa [unitText] using letters

/-- A unit that is written as a word; its plural has to be read as the unit, too. -/
def word (unit : TimeUnit) (name : String) (one : TimeUnit.ofName? name = some unit)
    (many : TimeUnit.ofName? (name ++ "s") = some unit)
    (letters : name.toList.all Span.isUnitChar) : Denomination where
  unit
  name
  isWord := true
  named n := by
    by_cases plural : n > 1
    · simpa [unitText, plural] using many
    · simpa [unitText, plural] using one
  letters n := by
    have s : Span.isUnitChar 's' := by decide
    by_cases plural : n > 1
    · simpa [unitText, plural, s] using letters
    · simpa [unitText, plural] using letters

/-- The units that seconds are split over, the longest first. -/
def coarse : List Denomination :=
  [word .year "year" (by decide) (by decide) (by decide),
   word .month "month" (by decide) (by decide) (by decide),
   word .day "day" (by decide) (by decide) (by decide),
   symbol .hour "h" (by decide) (by decide),
   symbol .minute "m" (by decide) (by decide),
   symbol .second "s" (by decide) (by decide)]

/-- The units that nanoseconds are split over, the longest first. -/
def fine : List Denomination :=
  [symbol .millisecond "ms" (by decide) (by decide),
   symbol .microsecond "us" (by decide) (by decide),
   symbol .nanosecond "ns" (by decide) (by decide)]

end Denomination

/-- A number of units. -/
structure Portion extends Denomination where
  count : Nat

namespace Portion

/-- The characters of a portion that is not empty. -/
def chars (p : Portion) : List Char := Decimal.digits p.count ++ (p.written p.count).toList

/-- What a portion is read as. -/
def group (p : Portion) : Group := ⟨p.count, none, p.unit⟩

/-- The length of a portion, in seconds or nanoseconds. -/
def amount (p : Portion) : Nat := p.count * p.unit.size

/-- The whole seconds of a portion. -/
def seconds (p : Portion) : Nat := if p.unit.isSubsecond then 0 else p.amount

/-- The nanoseconds of a portion of less than a second. -/
def nanos (p : Portion) : Nat := if p.unit.isSubsecond then p.amount else 0

theorem amount_eq (p : Portion) : p.amount = p.seconds ∨ p.amount = p.nanos := by
  rw [seconds, nanos]
  split
  · exact .inr rfl
  · exact .inl rfl

theorem toList_writeGroup (p : Portion) :
    (Span.writeGroup p.isWord p.name p.count).map String.toList =
      if p.count = 0 then [] else [p.chars] := by
  unfold Span.writeGroup
  split
  · rfl
  · simp [chars, Denomination.written, unitText, Decimal.text, String.toList_append]

end Portion

/-- The portions of an amount that is split over units, one after the other. -/
def portionsOf : List Denomination → Nat → List Portion
  | [], _ => []
  | d :: ds, n => ⟨d, n / d.unit.size⟩ :: portionsOf ds (n % d.unit.size)

/-- What splitting an amount over units leaves. -/
def remainder (ds : List Denomination) (n : Nat) : Nat := ds.foldl (fun n d => n % d.unit.size) n

/-- Whatever the units are, no part of an amount is lost. -/
theorem sum_amount_portionsOf (ds : List Denomination) (n : Nat) :
    ((portionsOf ds n).map Portion.amount).sum + remainder ds n = n := by
  induction ds generalizing n with
  | nil => rw [portionsOf, remainder, List.map_nil, List.sum_nil, Nat.zero_add, List.foldl_nil]
  | cons d ds ih =>
    rw [portionsOf, remainder, List.map_cons, List.sum_cons, List.foldl_cons, Nat.add_assoc]
    calc n / d.unit.size * d.unit.size + (((portionsOf ds (n % d.unit.size)).map Portion.amount).sum
            + remainder ds (n % d.unit.size))
        = n / d.unit.size * d.unit.size + n % d.unit.size := by rw [ih]
      _ = n := Nat.div_add_mod' n d.unit.size

theorem mem_of_mem_portionsOf {ds : List Denomination} {n : Nat} {p : Portion}
    (mem : p ∈ portionsOf ds n) : p.toDenomination ∈ ds := by
  induction ds generalizing n with
  | nil => exact nomatch mem
  | cons d ds ih =>
    rw [portionsOf, List.mem_cons] at mem
    rcases mem with rfl | mem
    · exact List.mem_cons_self
    · exact List.mem_cons_of_mem _ (ih mem)

theorem count_le_of_mem_portionsOf {ds : List Denomination} {n : Nat} {p : Portion}
    (mem : p ∈ portionsOf ds n) : p.count ≤ n := by
  induction ds generalizing n with
  | nil => exact nomatch mem
  | cons d ds ih =>
    rw [portionsOf, List.mem_cons] at mem
    rcases mem with rfl | mem
    · exact Nat.div_le_self n _
    · exact Nat.le_trans (ih mem) (Nat.mod_le n _)

namespace Span

/-- What a span is written as. -/
def portions (span : Span) : List Portion :=
  portionsOf Denomination.coarse span.seconds ++ portionsOf Denomination.fine span.nanos

theorem writtenGroups_eq (span : Span) :
    span.writtenGroups = span.portions.flatMap fun p => writeGroup p.isWord p.name p.count := by
  have minutes (n : Nat) : n % 3600 % 60 = n % 60 := Nat.mod_mod_of_dvd n (by decide)
  have micros (n : Nat) : n % 1000000 / 1000 = n / 1000 % 1000 := by omega
  have nanos (n : Nat) : n % 1000000 % 1000 = n % 1000 := Nat.mod_mod_of_dvd n (by decide)
  simp only [writtenGroups, portions, Denomination.coarse, Denomination.fine, Denomination.word,
    Denomination.symbol, portionsOf, TimeUnit.size, List.flatMap_append, List.flatMap_cons,
    List.flatMap_nil, List.append_nil, List.append_assoc, Nat.div_one, minutes, micros, nanos]

theorem count_lt_of_mem_portions {span : Span} {p : Portion} (mem : p ∈ span.portions) :
    p.count < Decimal.longBound := by
  have nanos : nanosPerSecond ≤ Decimal.longBound := by decide
  rw [portions, List.mem_append] at mem
  rcases mem with mem | mem
  · exact Nat.lt_of_le_of_lt (count_le_of_mem_portionsOf mem) span.seconds_lt
  · have small := Nat.lt_of_le_of_lt (count_le_of_mem_portionsOf mem) span.nanos_lt
    exact Nat.lt_of_lt_of_le small nanos

/-! ### The portions add up -/

theorem isSubsecond_of_mem_coarse {n : Nat} {p : Portion}
    (mem : p ∈ portionsOf Denomination.coarse n) : p.unit.isSubsecond = false := by
  have coarse : ∀ d ∈ Denomination.coarse, d.unit.isSubsecond = false := by
    simp [Denomination.coarse, Denomination.word, Denomination.symbol, TimeUnit.isSubsecond]
  exact coarse _ (mem_of_mem_portionsOf mem)

theorem isSubsecond_of_mem_fine {n : Nat} {p : Portion}
    (mem : p ∈ portionsOf Denomination.fine n) : p.unit.isSubsecond = true := by
  have fine : ∀ d ∈ Denomination.fine, d.unit.isSubsecond = true := by
    simp [Denomination.fine, Denomination.symbol, TimeUnit.isSubsecond]
  exact fine _ (mem_of_mem_portionsOf mem)

/-- The last of the units that seconds are split over leaves nothing. -/
theorem remainder_coarse (n : Nat) : remainder Denomination.coarse n = 0 := Nat.mod_one _

theorem remainder_fine (n : Nat) : remainder Denomination.fine n = 0 := Nat.mod_one _

/-- Portions of one kind, seconds or nanoseconds, add up to either of the two alone. -/
theorem sums_of_kind {ps : List Portion} {subsecond : Bool}
    (kind : ∀ p ∈ ps, p.unit.isSubsecond = subsecond) :
    (ps.map Portion.seconds).sum = (if subsecond then 0 else (ps.map Portion.amount).sum) ∧
    (ps.map Portion.nanos).sum = (if subsecond then (ps.map Portion.amount).sum else 0) := by
  induction ps with
  | nil => cases subsecond <;> exact ⟨rfl, rfl⟩
  | cons p ps ih =>
    obtain ⟨here, kind⟩ := List.forall_mem_cons.mp kind
    obtain ⟨seconds, nanos⟩ := ih kind
    simp only [List.map_cons, List.sum_cons, Portion.seconds, Portion.nanos, here, seconds, nanos]
    cases subsecond <;> simp

theorem sums_coarse (n : Nat) :
    ((portionsOf Denomination.coarse n).map Portion.seconds).sum = n ∧
    ((portionsOf Denomination.coarse n).map Portion.nanos).sum = 0 := by
  have sum := sum_amount_portionsOf Denomination.coarse n
  rw [remainder_coarse, Nat.add_zero] at sum
  have coarse : ∀ p ∈ portionsOf Denomination.coarse n, p.unit.isSubsecond = false :=
    fun _ => isSubsecond_of_mem_coarse
  obtain ⟨seconds, nanos⟩ := sums_of_kind coarse
  exact ⟨seconds.trans sum, nanos⟩

theorem sums_fine (n : Nat) :
    ((portionsOf Denomination.fine n).map Portion.seconds).sum = 0 ∧
    ((portionsOf Denomination.fine n).map Portion.nanos).sum = n := by
  have sum := sum_amount_portionsOf Denomination.fine n
  rw [remainder_fine, Nat.add_zero] at sum
  have fine : ∀ p ∈ portionsOf Denomination.fine n, p.unit.isSubsecond = true :=
    fun _ => isSubsecond_of_mem_fine
  obtain ⟨seconds, nanos⟩ := sums_of_kind fine
  exact ⟨seconds, nanos.trans sum⟩

theorem sum_seconds_portions (span : Span) :
    (span.portions.map Portion.seconds).sum = span.seconds := by
  rw [portions, List.map_append, List.sum_append, (sums_coarse _).1, (sums_fine _).1, Nat.add_zero]

theorem sum_nanos_portions (span : Span) :
    (span.portions.map Portion.nanos).sum = span.nanos := by
  rw [portions, List.map_append, List.sum_append, (sums_coarse _).2, (sums_fine _).2, Nat.zero_add]

/-! ### Adding up -/

/-- A sum that is a span again fits. -/
theorem add?_eq_some {span target : Span} {parts : Nat × Nat}
    (seconds : target.seconds = span.seconds + parts.1)
    (nanos : target.nanos = span.nanos + parts.2) : span.add? parts = some target := by
  obtain ⟨s, n, seconds_lt, nanos_lt⟩ := target
  subst seconds nanos
  have fits : span.nanos + parts.2 < secondBound := Nat.lt_trans nanos_lt (by decide)
  have carry : (span.nanos + parts.2) / nanosPerSecond = 0 := Nat.div_eq_of_lt nanos_lt
  rw [add?, fitting, if_pos fits, Option.bind_eq_bind, Option.bind_some, ofParts?]
  simp only [carry, Nat.add_zero, seconds_lt, dite_true, Nat.mod_eq_of_lt nanos_lt]

theorem wholeParts?_group {p : Portion} (fits : p.amount < secondBound) :
    p.group.wholeParts? = some (p.seconds, p.nanos) := by
  have fitting : fitting (p.group.whole * p.group.unit.size) = some p.amount := if_pos fits
  rw [Group.wholeParts?, fitting, Portion.seconds, Portion.nanos]
  show some (if p.unit.isSubsecond = true then _ else _) = _
  split <;> rfl

/-- Portions that lead from one span to another are added without any sum exceeding its bound. -/
theorem addGroups?_group {span target : Span} {ps : List Portion}
    (seconds : target.seconds = span.seconds + (ps.map Portion.seconds).sum)
    (nanos : target.nanos = span.nanos + (ps.map Portion.nanos).sum) :
    span.addGroups? (ps.map Portion.group) = some target := by
  induction ps generalizing span with
  | nil =>
    obtain ⟨s, n, _, _⟩ := target
    rw [List.map_nil, addGroups?]
    cases span
    simp_all
  | cons p ps ih =>
    rw [List.map_cons, List.sum_cons, ← Nat.add_assoc] at seconds nanos
    have seconds_lt := target.seconds_lt
    have nanos_lt := target.nanos_lt
    have nano_bound : nanosPerSecond ≤ secondBound := by decide
    have fits : p.amount < secondBound := by
      rcases p.amount_eq with eq | eq
      · omega
      · omega
    let next : Span := ⟨span.seconds + p.seconds, span.nanos + p.nanos, by omega, by omega⟩
    have whole : span.add? (p.seconds, p.nanos) = some next := add?_eq_some rfl rfl
    have fraction : next.add? (0, 0) = some next := add?_eq_some rfl rfl
    have rest : next.addGroups? (ps.map Portion.group) = some target := ih seconds nanos
    rw [List.map_cons, addGroups?, wholeParts?_group fits]
    simp only [Option.bind_eq_bind, Option.bind_some, whole]
    show (next.add? (0, 0)).bind _ = _
    rw [fraction, Option.bind_some, rest]

/-! ### The portions are read -/

/-- A portion at the head of a text is read, whatever follows its name. -/
theorem readGroup?_chars {p : Portion} (fits : p.count < Decimal.longBound) {rest : List Char}
    (stops : ∀ c ∈ rest.head?, isUnitChar c = false) :
    readGroup? (p.chars ++ rest) = some (p.group, rest) := by
  obtain ⟨c, cs, name⟩ := p.exists_cons p.count
  have letters := List.all_eq_true.mp (p.letters p.count)
  have letter : isUnitChar c := letters c (name ▸ List.mem_cons_self)
  have number : LeadingRun isNumberChar (Decimal.digits p.count)
      ((p.written p.count).toList ++ rest) := by
    constructor
    · intro d mem
      rw [isNumberChar, Decimal.isDigit_of_mem_digits mem, Bool.true_or]
    · intro d head
      obtain rfl : c = d := by simpa [name] using head
      exact isNumberChar_eq_false_of_isUnitChar letter
  have unit : LeadingRun isUnitChar (p.written p.count).toList rest := ⟨letters, stops⟩
  have value : number? (Decimal.digits p.count) = some p.count := by
    rw [number?, List.filter_eq_self.mpr fun _ mem => Decimal.isDigit_of_mem_digits mem]
    exact Decimal.below?_digits fits
  have point : c ≠ '.' := by
    rintro rfl
    exact absurd letter (by decide)
  rw [readGroup?, Portion.chars, List.append_assoc, number.takeWhile_append,
    number.dropWhile_append, value]
  simp only [Option.bind_eq_bind, Option.bind_some]
  -- the number is followed by a letter, so there is no fraction
  split
  next after eq =>
    rw [name] at eq
    exact absurd (List.cons.inj eq).1 point
  next =>
    show (TimeUnit.ofName? _).bind _ = _
    have named : TimeUnit.ofName? (p.written p.count) = some p.unit := p.named p.count
    rw [unit.takeWhile_append, unit.dropWhile_append, String.ofList_toList, named]
    rfl

/-- White space before a group does not count. -/
theorem readGroups?_space (fuel : Nat) (cs : List Char) :
    readGroups? fuel (' ' :: cs) = readGroups? fuel cs := by
  have blank : isBlank ' ' := by decide
  rw [readGroups?.eq_def, readGroups?.eq_def fuel cs]
  simp only [List.dropWhile_cons_of_pos blank]

theorem readGroups?_chars {p : Portion} (fits : p.count < Decimal.longBound) {rest : List Char}
    (stops : ∀ c ∈ rest.head?, isUnitChar c = false) (fuel : Nat) :
    readGroups? (fuel + 1) (p.chars ++ rest) = (p.group :: ·) <$> readGroups? fuel rest := by
  obtain ⟨d, ds, digits⟩ := List.exists_cons_of_ne_nil (Decimal.digits_ne_nil p.count)
  have digit : d.isDigit := Decimal.isDigit_of_mem_digits (digits ▸ List.mem_cons_self)
  have blank : ¬ isBlank d := by simp [isBlank_eq_false_of_isDigit digit]
  have read := readGroup?_chars fits stops
  have chars : p.chars ++ rest = d :: (ds ++ ((p.written p.count).toList ++ rest)) := by
    simp [Portion.chars, digits]
  rw [chars] at read ⊢
  rw [readGroups?, List.dropWhile_cons_of_neg blank]
  simp only [digit, if_true, read]
  rfl

/-- Portions with a space before each are read one after the other. -/
theorem readGroups?_flatMap {ps : List Portion} (fit : ∀ p ∈ ps, p.count < Decimal.longBound)
    {fuel : Nat} (enough : ps.length ≤ fuel) :
    readGroups? fuel (ps.flatMap fun p => ' ' :: p.chars) = some (ps.map Portion.group) := by
  induction ps generalizing fuel with
  | nil => rw [List.flatMap_nil, readGroups?]; rfl
  | cons p ps ih =>
    obtain ⟨here, fit⟩ := List.forall_mem_cons.mp fit
    obtain ⟨fuel, rfl⟩ := Nat.exists_eq_add_one_of_ne_zero
      (Nat.ne_of_gt (Nat.lt_of_lt_of_le (Nat.succ_pos _) enough))
    have stops : ∀ c ∈ (ps.flatMap fun p => ' ' :: p.chars).head?, isUnitChar c = false := by
      cases ps with
      | nil => intro c head; exact nomatch head
      | cons q ps =>
        intro c head
        obtain rfl : ' ' = c := by simpa using head
        decide
    rw [List.flatMap_cons, List.cons_append, readGroups?_space, readGroups?_chars here stops,
      ih fit (Nat.le_of_succ_le_succ enough)]
    rfl

/-- A space before each of some portions is one more than a space between any two. -/
theorem space_intercalate {ps : List Portion} (nonempty : ps ≠ []) :
    ' ' :: [' '].intercalate (ps.map Portion.chars) = ps.flatMap fun p => ' ' :: p.chars := by
  induction ps with
  | nil => exact absurd rfl nonempty
  | cons p ps ih =>
    cases ps with
    | nil => simp
    | cons q ps =>
      rw [List.map_cons, List.map_cons, List.intercalate_cons_cons, ← List.map_cons,
        List.flatMap_cons, ← ih (List.cons_ne_nil q ps), List.append_assoc, List.singleton_append,
        List.cons_append]

theorem length_lt_length_flatMap {ps : List Portion} (nonempty : ps ≠ []) :
    ps.length < (ps.flatMap fun p => ' ' :: p.chars).length := by
  have long (p : Portion) : 0 < p.chars.length := by
    have := List.length_pos_of_ne_nil (Decimal.digits_ne_nil p.count)
    rw [Portion.chars, List.length_append]
    omega
  have twice : 2 * ps.length ≤ (ps.flatMap fun p => ' ' :: p.chars).length := by
    clear nonempty
    induction ps with
    | nil => exact Nat.le_refl _
    | cons p ps ih =>
      have := long p
      simp only [List.flatMap_cons, List.length_cons, List.length_append]
      omega
  have := List.length_pos_of_ne_nil nonempty
  omega

/-- The text of portions that add up to a span is read as the span. -/
theorem read?_of_portions {text : String} {span : Span} {ps : List Portion} (nonempty : ps ≠ [])
    (written : text.toList = [' '].intercalate (ps.map Portion.chars))
    (fit : ∀ p ∈ ps, p.count < Decimal.longBound)
    (seconds : (ps.map Portion.seconds).sum = span.seconds)
    (nanos : (ps.map Portion.nanos).sum = span.nanos) : read? text = some span := by
  have spaced : ' ' :: text.toList = ps.flatMap fun p => ' ' :: p.chars := by
    rw [written, space_intercalate nonempty]
  have enough : ps.length ≤ text.length := by
    have := length_lt_length_flatMap nonempty
    rw [← spaced, List.length_cons, String.length_toList] at this
    omega
  have groups : readGroups? text.length text.toList = some (ps.map Portion.group) := by
    rw [← readGroups?_space, spaced, readGroups?_flatMap fit enough]
  have sum : zero.addGroups? (ps.map Portion.group) = some span := by
    apply addGroups?_group
    · rw [seconds]; exact (Nat.zero_add _).symm
    · rw [nanos]; exact (Nat.zero_add _).symm
  have digit : text ≠ "0" := by
    -- a digit alone is no group
    rintro rfl
    have : readGroups? 1 ['0'] = none := by decide
    exact nomatch this.symm.trans groups
  have notEmpty : ¬ (ps.map Portion.group).isEmpty := by simpa using nonempty
  rw [read?, if_neg digit, groups, Option.bind_eq_bind, Option.bind_some, if_neg notEmpty, sum]

/-! ### The text of a span -/

/-- The portions that are written. -/
def present (span : Span) : List Portion := span.portions.filter (·.count ≠ 0)

theorem map_toList_writtenGroups (span : Span) :
    span.writtenGroups.map String.toList = span.present.map Portion.chars := by
  rw [writtenGroups_eq, present]
  induction span.portions with
  | nil => rfl
  | cons p ps ih =>
    rw [List.flatMap_cons, List.map_append, ih, Portion.toList_writeGroup]
    by_cases empty : p.count = 0
    · simp [empty]
    · simp [empty]

/-- Leaving out empty portions does not change a sum. -/
theorem sum_map_filter {f : Portion → Nat} (empty : ∀ p, p.count = 0 → f p = 0)
    (ps : List Portion) : ((ps.filter (·.count ≠ 0)).map f).sum = (ps.map f).sum := by
  induction ps with
  | nil => rfl
  | cons p ps ih =>
    by_cases none : p.count = 0
    · simpa [none, empty p none] using ih
    · simpa [none] using ih

theorem sum_seconds_present (span : Span) :
    (span.present.map Portion.seconds).sum = span.seconds := by
  rw [present, sum_map_filter (fun p empty => by simp [Portion.seconds, Portion.amount, empty]),
    sum_seconds_portions]

theorem sum_nanos_present (span : Span) :
    (span.present.map Portion.nanos).sum = span.nanos := by
  rw [present, sum_map_filter (fun p empty => by simp [Portion.nanos, Portion.amount, empty]),
    sum_nanos_portions]

theorem present_ne_nil {span : Span} (notZero : ¬ span.isZero) : span.present ≠ [] := by
  intro none
  have seconds := sum_seconds_present span
  have nanos := sum_nanos_present span
  rw [none] at seconds nanos
  exact notZero (by rw [isZero, ← seconds, ← nanos]; rfl)

/-- Every span is read back from its text. -/
theorem read?_text (span : Span) : read? span.text = some span := by
  by_cases isZero : span.isZero
  · -- an empty span is written as one portion
    let none : Portion := ⟨.symbol .second "s" (by decide) (by decide), 0⟩
    have fit : ∀ p ∈ [none], p.count < Decimal.longBound := by
      intro p mem
      obtain rfl := List.mem_singleton.mp mem
      decide
    obtain ⟨seconds, nanos⟩ : span.seconds = 0 ∧ span.nanos = 0 := by
      simpa [Span.isZero] using isZero
    rw [text, if_pos isZero]
    exact read?_of_portions (List.cons_ne_nil none []) (by decide) fit seconds.symm nanos.symm
  · have written : span.text.toList = [' '].intercalate (span.present.map Portion.chars) := by
      rw [text, if_neg isZero, String.toList_intercalate, map_toList_writtenGroups]
      rfl
    have fit : ∀ p ∈ span.present, p.count < Decimal.longBound :=
      fun p mem => count_lt_of_mem_portions (List.mem_of_mem_filter mem)
    exact read?_of_portions (present_ne_nil isZero) written fit (sum_seconds_present span)
      (sum_nanos_present span)

end Span

end DeployWatch.Time
