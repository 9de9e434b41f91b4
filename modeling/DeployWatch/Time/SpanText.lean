/-
# Spans as text

The text of a span is a list of groups such as `1h 30m`: a whole number and a unit.  Writing
splits a span over nine units, from years down to nanoseconds, and leaves out the empty
groups.  Reading accepts more: any of several names for a unit, a fraction where the unit
has smaller parts, and white space almost anywhere.

Reading is exact.  A group must come to a whole number of seconds or nanoseconds, and every
intermediate number must fit into 64 bits; otherwise there is no result.
-/

import DeployWatch.Text.Blank
import DeployWatch.Text.Decimal
import DeployWatch.Time.Span

namespace DeployWatch.Time

open DeployWatch.Text

/-- The units a group can be measured in. -/
inductive TimeUnit where
  | nanosecond | microsecond | millisecond | second | minute | hour | day | week | month | year
  deriving DecidableEq, Repr

namespace TimeUnit

/-- The names under which a unit is read. -/
def names : TimeUnit → List String
  | nanosecond => ["nanos", "nsec", "ns"]
  | microsecond => ["usec", "us", "µs"]
  | millisecond => ["millis", "msec", "ms"]
  | second => ["seconds", "second", "secs", "sec", "s"]
  | minute => ["minutes", "minute", "min", "mins", "m"]
  | hour => ["hours", "hour", "hr", "hrs", "h"]
  | day => ["days", "day", "d"]
  | week => ["weeks", "week", "wk", "wks", "w"]
  | month => ["months", "month", "M"]
  | year => ["years", "year", "yr", "yrs", "y"]

/-- All units, the smallest first. -/
def all : List TimeUnit :=
  [nanosecond, microsecond, millisecond, second, minute, hour, day, week, month, year]

/-- The unit with a given name. -/
def ofName? (name : String) : Option TimeUnit := all.find? fun u => u.names.contains name

/-- The length of a unit: nanoseconds for the units below a second, seconds for the others.
A year is 365.25 days and a month a twelfth of 365.28 days. -/
def size : TimeUnit → Nat
  | nanosecond => 1
  | microsecond => 1000
  | millisecond => 1000000
  | second => 1
  | minute => 60
  | hour => 3600
  | day => 86400
  | week => 604800
  | month => 2630016
  | year => 31557600

/-- The unit is counted in nanoseconds. -/
def isSubsecond : TimeUnit → Bool
  | nanosecond | microsecond | millisecond => true
  | _ => false

end TimeUnit

/-- The digits after a point, as a quotient. -/
structure Fraction where
  /-- The value of the digits. -/
  numerator : Nat
  /-- Ten to the number of digits. -/
  denominator : Nat
  deriving DecidableEq, Repr

/-- A number with its unit. -/
structure Group where
  /-- The digits before the point. -/
  whole : Nat
  /-- The digits after the point, if there is one. -/
  fraction : Option Fraction
  /-- What is counted. -/
  unit : TimeUnit
  deriving DecidableEq, Repr

/-- A number that still fits into 64 bits. -/
def fitting (n : Nat) : Option Nat := if n < secondBound then some n else none

/-- A quotient that comes out even, of a dividend that fits. -/
def evenQuotient (dividend divisor : Nat) : Option Nat := do
  let dividend ← fitting dividend
  if dividend % divisor = 0 then some (dividend / divisor) else none

namespace Group

/-- The seconds and nanoseconds of the whole part. -/
def wholeParts? (g : Group) : Option (Nat × Nat) := do
  let amount ← fitting (g.whole * g.unit.size)
  some (if g.unit.isSubsecond then (0, amount) else (amount, 0))

/-- The seconds and nanoseconds of the fraction.  Up to minutes a fraction is counted in
nanoseconds, above that in seconds, and a nanosecond has no fractions. -/
def fractionParts? (g : Group) : Option (Nat × Nat) :=
  match g.fraction with
  | none => some (0, 0)
  | some f =>
    match g.unit with
    | .nanosecond => none
    | .microsecond | .millisecond =>
      (evenQuotient (f.numerator * g.unit.size) f.denominator).map (0, ·)
    | .second | .minute =>
      (evenQuotient (f.numerator * (g.unit.size * nanosPerSecond)) f.denominator).map (0, ·)
    | _ => (evenQuotient (f.numerator * g.unit.size) f.denominator).map (·, 0)

end Group

namespace Span

/-- The span lengthened by seconds and nanoseconds, if the result fits. -/
def add? (span : Span) (parts : Nat × Nat) : Option Span := do
  let nanos ← fitting (span.nanos + parts.2)
  ofParts? (span.seconds + parts.1) nanos

/-- The sum of groups on top of a span. -/
def addGroups? (span : Span) : List Group → Option Span
  | [] => some span
  | g :: groups => do
    let span ← span.add? (← g.wholeParts?)
    let span ← span.add? (← g.fractionParts?)
    span.addGroups? groups

/-! ## Writing -/

/-- A group of a written span: nothing for an empty one; years, months and days are words
with a plural. -/
def writeGroup (isWord : Bool) (name : String) (n : Nat) : List String :=
  if n = 0 then []
  else [Decimal.text n ++ name ++ (if isWord && n > 1 then "s" else "")]

/-- The groups of a span, the longest unit first. -/
def writtenGroups (span : Span) : List String :=
  let s := span.seconds
  let withinYear := s % 31557600
  let withinMonth := withinYear % 2630016
  let withinDay := withinMonth % 86400
  writeGroup true "year" (s / 31557600)
    ++ writeGroup true "month" (withinYear / 2630016)
    ++ writeGroup true "day" (withinMonth / 86400)
    ++ writeGroup false "h" (withinDay / 3600)
    ++ writeGroup false "m" (withinDay % 3600 / 60)
    ++ writeGroup false "s" (withinDay % 60)
    ++ writeGroup false "ms" (span.nanos / 1000000)
    ++ writeGroup false "us" (span.nanos / 1000 % 1000)
    ++ writeGroup false "ns" (span.nanos % 1000)

/-- The text of a span. -/
def text (span : Span) : String :=
  if span.isZero then "0s" else String.intercalate " " span.writtenGroups

/-! ## Reading -/

/-- Characters that may stand among the digits of a number. -/
def isNumberChar (c : Char) : Bool := c.isDigit || isBlank c

/-- Characters of a unit's name. -/
def isUnitChar (c : Char) : Bool := c.isAlpha || c = 'µ'

/-- The value of the digits in a run of digits and white space, if there is a digit. -/
def number? (run : List Char) : Option Nat :=
  Decimal.below? Decimal.longBound (run.filter Char.isDigit)

/-- The value of a run of digits and white space after a point. -/
def fraction? (run : List Char) : Option Fraction := do
  let numerator ← number? run
  let denominator ← fitting (Nat.pow 10 (run.filter Char.isDigit).length)
  some ⟨numerator, denominator⟩

/-- A group at the head of a text that begins with a digit, and what follows it. -/
def readGroup? (cs : List Char) : Option (Group × List Char) := do
  let whole ← number? (cs.takeWhile isNumberChar)
  let rest := cs.dropWhile isNumberChar
  let (fraction, rest) ← match rest with
    | '.' :: after => do
      let f ← fraction? (after.takeWhile isNumberChar)
      pure (some f, after.dropWhile isNumberChar)
    | _ => pure (none, rest)
  let unit ← TimeUnit.ofName? (String.ofList (rest.takeWhile isUnitChar))
  some (⟨whole, fraction, unit⟩, rest.dropWhile isUnitChar)

/-- The groups of a text, at most `fuel` of them.  Each starts with a digit after white
space, or directly after the unit before it. -/
def readGroups? : Nat → List Char → Option (List Group)
  | fuel, cs =>
    match cs.dropWhile isBlank with
    | [] => some []
    | c :: rest =>
      match fuel with
      | 0 => none
      | fuel + 1 =>
        if c.isDigit then do
          let (g, rest) ← readGroup? (c :: rest)
          (g :: ·) <$> readGroups? fuel rest
        else none

/-- The span that a text stands for: `0`, or one group or more. -/
def read? (text : String) : Option Span :=
  if text = "0" then some zero
  else do
    let groups ← readGroups? text.length text.toList
    if groups.isEmpty then none else zero.addGroups? groups

end Span

end DeployWatch.Time
