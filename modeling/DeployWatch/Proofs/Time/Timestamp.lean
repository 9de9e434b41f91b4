/-
# A written timestamp denotes its millisecond

A moment is a date that exists and a time of day (`Moment`).  The millisecond it happens at is had
by counting days (`Moment.At`), and how a moment is written is said apart from the writer
(`Moment.Written`): two digits each, a year of four digits or one with a sign, and milliseconds
only where there are some.  No text writes two moments (`Moment.Written.unique`), and the text of
a timestamp in the calendar denotes that timestamp and no other (`Timestamp.denotes_text_iff`).

Timestamps beyond the calendar are written as bare numbers.  These hold no colon, so that no two
timestamps at all have one text (`Timestamp.text_injective`).
-/

import Mathlib.Data.List.Basic
import DeployWatch.Proofs.Text.Decimal
import DeployWatch.Proofs.Text.Runs
import DeployWatch.Proofs.Time.Calendar
import DeployWatch.Time.Timestamp

namespace DeployWatch.Time

open DeployWatch.Text

/-! ### Numerals -/

/-- Digits that write a number. -/
structure Numeral (n : Nat) (ds : List Char) : Prop where
  digits : ∀ c ∈ ds, c.isDigit
  value : Decimal.value ds = n

/-- So many digits that write a number. -/
structure Places (width n : Nat) (ds : List Char) : Prop extends Numeral n ds where
  length : ds.length = width

namespace Numeral

variable {n n' : Nat} {ds ds' rest rest' : List Char}

/-- Where a numeral ends, the number is settled, and so is what follows. -/
theorem cut (h : Numeral n ds) (h' : Numeral n' ds') (stop : ∀ c ∈ rest.head?, c.isDigit = false)
    (stop' : ∀ c ∈ rest'.head?, c.isDigit = false) (same : ds ++ rest = ds' ++ rest') :
    n = n' ∧ rest = rest' := by
  have run : LeadingRun Char.isDigit ds rest := ⟨h.digits, stop⟩
  have run' : LeadingRun Char.isDigit ds' rest' := ⟨h'.digits, stop'⟩
  obtain ⟨rfl, rest_eq⟩ := run.unique run' same
  exact ⟨h.value.symm.trans h'.value, rest_eq⟩

/-- A numeral before a mark. -/
theorem cut_mark {mark : Char} (no_digit : mark.isDigit = false) (h : Numeral n ds)
    (h' : Numeral n' ds') (same : ds ++ mark :: rest = ds' ++ mark :: rest') :
    n = n' ∧ rest = rest' := by
  have stop : ∀ rest, ∀ c ∈ (mark :: rest : List Char).head?, c.isDigit = false := by
    intro rest c head
    rwa [← Option.some.inj (Option.mem_def.mp head)]
  obtain ⟨n_eq, tails⟩ := cut h h' (stop rest) (stop rest') same
  exact ⟨n_eq, (List.cons.inj tails).2⟩

/-- No numeral begins with a mark. -/
theorem append_ne_mark {mark : Char} (no_digit : mark.isDigit = false) (h : Numeral n ds)
    (some_digit : ds ≠ []) : ds ++ rest ≠ mark :: rest' := by
  obtain ⟨c, tail, rfl⟩ := List.exists_cons_of_ne_nil some_digit
  intro same
  have digit := h.digits c List.mem_cons_self
  rw [(List.cons.inj same).1, no_digit] at digit
  exact Bool.false_ne_true digit

theorem mark_not_mem {mark : Char} (no_digit : mark.isDigit = false) (h : Numeral n ds) :
    mark ∉ ds := by
  intro mem
  exact Bool.false_ne_true (no_digit.symm.trans (h.digits mark mem))

end Numeral

theorem numeral_padded (width n : Nat) : Numeral n (Decimal.padded width n) where
  digits c mem := by
    rcases List.mem_append.mp mem with zero | digit
    · rw [List.eq_of_mem_replicate zero]
      rfl
    · exact Decimal.isDigit_of_mem_digits digit
  value := by
    rw [Decimal.value, Decimal.padded, Nat.ofDigitChars_append, Nat.ofDigitChars_replicate_zero,
      Nat.mul_zero]
    exact Decimal.value_digits n

theorem le_length_padded (width n : Nat) : width ≤ (Decimal.padded width n).length := by
  simp only [Decimal.padded, List.length_append, List.length_replicate]
  omega

theorem places_padded {width n : Nat} (some_place : 0 < width) (fits : n < 10 ^ width) :
    Places width n (Decimal.padded width n) where
  toNumeral := numeral_padded width n
  length := by
    have short : (Decimal.digits n).length ≤ width :=
      (Nat.length_toDigits_le_iff (by decide) some_place).mpr fits
    simp only [Decimal.padded, List.length_append, List.length_replicate]
    omega

theorem Places.ne_nil {width n : Nat} {ds : List Char} (h : Places (width + 1) n ds) :
    ds ≠ [] := by
  rintro rfl
  exact Nat.succ_ne_zero _ h.length.symm

/-! ### Years and milliseconds -/

/-- The digits of a year: four of them, or a sign in front of at least four. -/
inductive YearNumeral : Int → List Char → Prop where
  | plain {n ds} (places : Places 4 n ds) : YearNumeral n ds
  | later {n ds} (numeral : Numeral n ds) (beyond : 9999 < n) : YearNumeral n ('+' :: ds)
  | earlier {n ds} (numeral : Numeral n ds) (before : 0 < n) (wide : 4 ≤ ds.length) :
      YearNumeral (-n) ('-' :: ds)

/-- A year before a mark. -/
theorem YearNumeral.cut_mark {year year' : Int} {ds ds' rest rest' : List Char}
    (h : YearNumeral year ds) (h' : YearNumeral year' ds')
    (same : ds ++ '-' :: rest = ds' ++ '-' :: rest') : year = year' ∧ rest = rest' := by
  cases h with
  | plain places =>
    cases h' with
    | plain places' =>
      have ⟨n_eq, tails⟩ := places.cut_mark rfl places'.toNumeral same
      exact ⟨congrArg Nat.cast n_eq, tails⟩
    | later => exact absurd same (places.append_ne_mark rfl places.ne_nil)
    | earlier => exact absurd same (places.append_ne_mark rfl places.ne_nil)
  | later numeral =>
    cases h' with
    | plain places' => exact absurd same.symm (places'.append_ne_mark rfl places'.ne_nil)
    | later numeral' =>
      have ⟨n_eq, tails⟩ := numeral.cut_mark rfl numeral' (List.cons.inj same).2
      exact ⟨congrArg Nat.cast n_eq, tails⟩
    | earlier => exact absurd (List.cons.inj same).1 (by decide)
  | earlier numeral =>
    cases h' with
    | plain places' => exact absurd same.symm (places'.append_ne_mark rfl places'.ne_nil)
    | later => exact absurd (List.cons.inj same).1 (by decide)
    | earlier numeral' =>
      have ⟨n_eq, tails⟩ := numeral.cut_mark rfl numeral' (List.cons.inj same).2
      exact ⟨congrArg (fun n : Nat => -(n : Int)) n_eq, tails⟩

theorem YearNumeral.blank_not_mem {year : Int} {ds : List Char} (h : YearNumeral year ds) :
    ' ' ∉ ds := by
  cases h with
  | plain places => exact places.mark_not_mem rfl
  | later numeral => simp [numeral.mark_not_mem (show ' '.isDigit = false from rfl)]
  | earlier numeral => simp [numeral.mark_not_mem (show ' '.isDigit = false from rfl)]

theorem yearNumeral_yearText (year : Int) : YearNumeral year (Timestamp.yearText year).toList := by
  have numeral := numeral_padded 4 year.natAbs
  unfold Timestamp.yearText
  simp only
  split
  · next before =>
    have signed := YearNumeral.earlier numeral (by omega) (le_length_padded 4 _)
    have year_eq : -(year.natAbs : Int) = year := by omega
    rw [year_eq] at signed
    simpa using signed
  · have year_eq : (year.natAbs : Int) = year := by omega
    split
    · next beyond =>
      have signed := YearNumeral.later numeral (by omega)
      rw [year_eq] at signed
      simpa using signed
    · next within =>
      have within_four : year.natAbs < 10 ^ 4 := by omega
      have four := YearNumeral.plain (places_padded (by decide) within_four)
      rw [year_eq] at four
      simpa using four

/-- The milliseconds of a time: a point and three digits, or nothing if there are none. -/
inductive FractionNumeral : Nat → List Char → Prop where
  | none : FractionNumeral 0 []
  | some {n ds} (places : Places 3 n ds) (shown : n ≠ 0) : FractionNumeral n ('.' :: ds)

/-- Where the offset begins, the milliseconds are settled. -/
theorem FractionNumeral.cut {milli milli' : Nat} {ds ds' rest rest' : List Char}
    (h : FractionNumeral milli ds) (h' : FractionNumeral milli' ds')
    (same : ds ++ '+' :: rest = ds' ++ '+' :: rest') : milli = milli' := by
  cases h with
  | none =>
    cases h' with
    | none => rfl
    | some => exact absurd (List.cons.inj same).1 (by decide)
  | some places =>
    cases h' with
    | none => exact absurd (List.cons.inj same).1 (by decide)
    | some places' => exact (places.cut_mark rfl places'.toNumeral (List.cons.inj same).2).1

/-- Milliseconds do not go on the number of seconds before them. -/
theorem FractionNumeral.stops {milli : Nat} {ds : List Char} (h : FractionNumeral milli ds)
    (rest : List Char) : ∀ c ∈ (ds ++ '+' :: rest).head?, c.isDigit = false := by
  intro c head
  cases h with
  | none =>
    obtain rfl := Option.some.inj head
    rfl
  | some =>
    obtain rfl := Option.some.inj head
    rfl

theorem FractionNumeral.blank_not_mem {milli : Nat} {ds : List Char}
    (h : FractionNumeral milli ds) : ' ' ∉ ds := by
  cases h with
  | none => exact List.not_mem_nil
  | some places => simp [places.mark_not_mem (show ' '.isDigit = false from rfl)]

theorem fractionNumeral_text {milli : Nat} (fits : milli < 1000) :
    FractionNumeral milli
      (if milli = 0 then "" else "." ++ String.ofList (Decimal.padded 3 milli)).toList := by
  split
  · next zero => exact zero ▸ .none
  · next shown =>
    have three : Places 3 milli (Decimal.padded 3 milli) := places_padded (by decide) fits
    have point := FractionNumeral.some three shown
    simpa using point

/-! ### Moments -/

/-- A point in time to the millisecond: a date that exists and a time of day. -/
@[ext]
structure Moment where
  date : Date
  hour : Nat
  minute : Nat
  second : Nat
  milli : Nat
  there : date.Exists
  hour_lt : hour < 24
  minute_lt : minute < 60
  second_lt : second < 60
  milli_lt : milli < 1000

namespace Moment

/-- A moment is so many milliseconds after the start of 1970-01-01. -/
def At (m : Moment) (ms : Int) : Prop :=
  ∃ day, m.date.FallsOn day ∧
    ms = (((day * 24 + m.hour) * 60 + m.minute) * 60 + m.second) * 1000 + m.milli

/-- The ways to write a moment in UTC. -/
inductive Written (m : Moment) : List Char → Prop where
  | intro {year month day hour minute second fraction}
      (year_numeral : YearNumeral m.date.year year) (month_places : Places 2 m.date.month month)
      (day_places : Places 2 m.date.day day) (hour_places : Places 2 m.hour hour)
      (minute_places : Places 2 m.minute minute) (second_places : Places 2 m.second second)
      (fraction_numeral : FractionNumeral m.milli fraction) :
      Written m (year ++ '-' :: (month ++ '-' :: (day ++ 'T' :: (hour ++ ':' :: (minute ++
        ':' :: (second ++ (fraction ++ '+' :: "00:00".toList)))))))

/-- A moment is at one millisecond. -/
theorem At.unique {m : Moment} {ms ms' : Int} (h : m.At ms) (h' : m.At ms') : ms = ms' := by
  obtain ⟨day, falls, rfl⟩ := h
  obtain ⟨day', falls', rfl⟩ := h'
  rw [falls.eq_toDays.2, falls'.eq_toDays.2]

theorem Written.unique {m m' : Moment} {cs : List Char} (h : m.Written cs) (h' : m'.Written cs) :
    m = m' := by
  -- the two are the same characters, taken apart in two ways
  obtain ⟨cs', same⟩ : ∃ cs', cs = cs' := ⟨cs, rfl⟩
  rw [same] at h'
  cases h with
  | intro year month day hour minute second fraction =>
    cases h' with
    | intro year' month' day' hour' minute' second' fraction' =>
      obtain ⟨year_eq, same⟩ := year.cut_mark year' same
      obtain ⟨month_eq, same⟩ := month.cut_mark rfl month'.toNumeral same
      obtain ⟨day_eq, same⟩ := day.cut_mark rfl day'.toNumeral same
      obtain ⟨hour_eq, same⟩ := hour.cut_mark rfl hour'.toNumeral same
      obtain ⟨minute_eq, same⟩ := minute.cut_mark rfl minute'.toNumeral same
      obtain ⟨second_eq, same⟩ := second.cut second'.toNumeral (fraction.stops _)
        (fraction'.stops _) same
      have date_eq : m.date = m'.date := 
        (Date.mk.injEq ..).mpr ⟨year_eq, month_eq, day_eq⟩
      exact Moment.ext date_eq hour_eq minute_eq second_eq (fraction.cut fraction' same)

/-- The moment at a millisecond. -/
def ofMillis (ms : Int) : Moment where
  date := Date.ofDays (ms / Timestamp.millisPerDay)
  hour := (ms % Timestamp.millisPerDay).toNat / 3600000
  minute := (ms % Timestamp.millisPerDay).toNat / 60000 % 60
  second := (ms % Timestamp.millisPerDay).toNat / 1000 % 60
  milli := (ms % Timestamp.millisPerDay).toNat % 1000
  there := (Date.fallsOn_ofDays _).eq_toDays.1
  hour_lt := by unfold Timestamp.millisPerDay; omega
  minute_lt := Nat.mod_lt _ (by decide)
  second_lt := Nat.mod_lt _ (by decide)
  milli_lt := Nat.mod_lt _ (by decide)

theorem at_ofMillis (ms : Int) : (ofMillis ms).At ms := by
  refine ⟨ms / Timestamp.millisPerDay, Date.fallsOn_ofDays _, ?_⟩
  simp only [ofMillis, Timestamp.millisPerDay]
  omega

theorem text_eq {ms : Int} (inside : Timestamp.inCalendar ms) :
    Timestamp.text ms =
      Timestamp.yearText (ofMillis ms).date.year ++ "-" ++
        Timestamp.twoDigits (ofMillis ms).date.month ++ "-" ++
        Timestamp.twoDigits (ofMillis ms).date.day ++ "T" ++
        Timestamp.twoDigits (ofMillis ms).hour ++ ":" ++
        Timestamp.twoDigits (ofMillis ms).minute ++ ":" ++
        Timestamp.twoDigits (ofMillis ms).second ++
        (if (ofMillis ms).milli = 0 then ""
          else "." ++ String.ofList (Decimal.padded 3 (ofMillis ms).milli)) ++ "+00:00" := by
  rw [Timestamp.text, if_pos inside]
  rfl

/-- The text of a timestamp in the calendar writes the moment at it. -/
theorem written_ofMillis {ms : Int} (inside : Timestamp.inCalendar ms) :
    (ofMillis ms).Written (Timestamp.text ms).toList := by
  have year := yearNumeral_yearText (ofMillis ms).date.year
  have two : ∀ n, n < 10 ^ 2 → Places 2 n (Timestamp.twoDigits n).toList := by
    intro n fits
    rw [Timestamp.twoDigits, String.toList_ofList]
    exact places_padded (by decide) fits
  have there := (ofMillis ms).there
  have month := two (ofMillis ms).date.month (there.month_le.trans_lt (by decide))
  have day := two (ofMillis ms).date.day (there.day_lt.trans (by decide))
  have hour := two (ofMillis ms).hour ((ofMillis ms).hour_lt.trans (by decide))
  have minute := two (ofMillis ms).minute ((ofMillis ms).minute_lt.trans (by decide))
  have second := two (ofMillis ms).second ((ofMillis ms).second_lt.trans (by decide))
  have fraction := fractionNumeral_text (ofMillis ms).milli_lt
  have written := Written.intro year month day hour minute second fraction
  rw [text_eq inside]
  simpa using written

/-- Digits and the marks between them stand in a written moment. -/
theorem Written.blank_not_mem {m : Moment} {cs : List Char} (h : m.Written cs) : ' ' ∉ cs := by
  cases h with
  | intro year month day hour minute second fraction =>
    have no_digit : ' '.isDigit = false := rfl
    simp [year.blank_not_mem, month.mark_not_mem no_digit, day.mark_not_mem no_digit,
      hour.mark_not_mem no_digit, minute.mark_not_mem no_digit, second.mark_not_mem no_digit,
      fraction.blank_not_mem]

theorem Written.colon_mem {m : Moment} {cs : List Char} (h : m.Written cs) : ':' ∈ cs := by
  cases h with
  | intro => simp

end Moment

namespace Timestamp

theorem inCalendar_iff {ms : Int} :
    inCalendar ms ↔ -8334601228800000 ≤ ms ∧ ms ≤ 8210266876799999 := by
  rw [inCalendar, Bool.and_eq_true, decide_eq_true_eq, decide_eq_true_eq]
  rfl

/-- Characters denote a millisecond if they write the moment at it. -/
def Denotes (cs : List Char) (ms : Int) : Prop := ∃ m : Moment, m.Written cs ∧ m.At ms

/-- The text of a timestamp in the calendar denotes that timestamp and no other. -/
theorem denotes_text_iff {ms ms' : Int} (inside : inCalendar ms) :
    Denotes (text ms).toList ms' ↔ ms' = ms := by
  constructor
  · rintro ⟨m, written, at_ms'⟩
    obtain rfl := written.unique (Moment.written_ofMillis inside)
    exact at_ms'.unique (Moment.at_ofMillis ms)
  · rintro rfl
    exact ⟨Moment.ofMillis ms', Moment.written_ofMillis inside, Moment.at_ofMillis ms'⟩

example : text (-62167219200001) = "-0001-12-31T23:59:59.999+00:00" := by cbv

theorem toList_text_of_outside {ms : Int} (outside : inCalendar ms = false) :
    (text ms).toList = Decimal.signedDigits ms := by
  rw [text, if_neg (by simp [outside]), Decimal.signedText, String.toList_ofList]

theorem blank_not_mem_text (ms : Int) : ' ' ∉ (text ms).toList := by
  cases inside : inCalendar ms with
  | true => exact (Moment.written_ofMillis inside).blank_not_mem
  | false =>
    rw [toList_text_of_outside inside]
    exact Decimal.mark_not_mem_signedDigits rfl (by decide) ms

/-- A timestamp's text tells whether the timestamp is in the calendar. -/
theorem colon_mem_text_iff (ms : Int) : ':' ∈ (text ms).toList ↔ inCalendar ms := by
  cases inside : inCalendar ms with
  | true => simpa using (Moment.written_ofMillis inside).colon_mem
  | false =>
    rw [toList_text_of_outside inside]
    simpa using Decimal.colon_not_mem_signedDigits ms

/-- No two timestamps have one text. -/
theorem text_injective {ms ms' : Int} (same : text ms = text ms') : ms = ms' := by
  have alike : inCalendar ms = inCalendar ms' := by
    rw [Bool.eq_iff_iff, ← colon_mem_text_iff, ← colon_mem_text_iff, same]
  cases inside : inCalendar ms with
  | true =>
    have denotes : Denotes (text ms').toList ms := same ▸ (denotes_text_iff inside).mpr rfl
    exact (denotes_text_iff (alike ▸ inside)).mp denotes
  | false =>
    apply Decimal.signedDigits_inj
    rw [← toList_text_of_outside inside, ← toList_text_of_outside (alike ▸ inside), same]

end Timestamp

end DeployWatch.Time
