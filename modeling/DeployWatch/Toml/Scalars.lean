/-
# TOML numbers, dates and times

Values that are written without quotes.  Such a value is one run of letters, digits and the
characters `+-_.:`; only between a date and a time may a space stand.  Underscores may
separate digits, and a decimal integer has no leading zeros.
-/

import DeployWatch.Text.Decimal
import DeployWatch.Text.Percent
import DeployWatch.Time.Calendar
import DeployWatch.Toml.Lexical
import DeployWatch.Toml.Value

namespace DeployWatch.Toml

open DeployWatch.Text DeployWatch.Time

/-- Characters of an unquoted value. -/
def isAtomChar (c : Char) : Bool :=
  c.isAlphanum || c = '+' || c = '-' || c = '_' || c = '.' || c = ':'

/-! ## Numbers -/

/-- The digits of a run in which single underscores may stand between digits. -/
def separated? (isDigit : Char → Bool) : List Char → Option (List Char)
  | [] => none
  | [c] => if isDigit c then some [c] else none
  | c :: '_' :: rest => if isDigit c then (separated? isDigit rest).map (c :: ·) else none
  | c :: rest => if isDigit c then (separated? isDigit rest).map (c :: ·) else none

/-- The digits of a decimal integer without a sign. -/
def decimal? (cs : List Char) : Option (List Char) := do
  let ds ← separated? Char.isDigit cs
  if ds.head? = some '0' && ds.length ≠ 1 then none else some ds

/-- The value of the digits of a base up to sixteen. -/
def radix? (base : Nat) (cs : List Char) : Option Nat := do
  let isDigit c := (Percent.hexValue? c).any (· < base)
  let ds ← separated? isDigit cs
  let values ← ds.mapM Percent.hexValue?
  some (values.foldl (fun n d => base * n + d) 0)

/-- An integer. -/
def integer? : List Char → Option Int
  | '0' :: 'x' :: rest => (radix? 16 rest).map Int.ofNat
  | '0' :: 'o' :: rest => (radix? 8 rest).map Int.ofNat
  | '0' :: 'b' :: rest => (radix? 2 rest).map Int.ofNat
  | '+' :: rest => (decimal? rest).map fun ds => Int.ofNat (Decimal.value ds)
  | '-' :: rest => (decimal? rest).map fun ds => -Int.ofNat (Decimal.value ds)
  | cs => (decimal? cs).map fun ds => Int.ofNat (Decimal.value ds)

/-- A text without the sign it may begin with. -/
def dropSign : List Char → List Char
  | '+' :: rest => rest
  | '-' :: rest => rest
  | cs => cs

/-- A number with a fraction, an exponent, or both, or an infinity, or no number. -/
def isFloat (cs : List Char) : Bool :=
  let body := dropSign cs
  if body = "inf".toList || body = "nan".toList then true
  else
    let isMark c := c = 'e' || c = 'E'
    let mantissa := body.takeWhile fun c => !isMark c
    let whole := mantissa.takeWhile (· ≠ '.')
    let fractionOk := match mantissa.dropWhile (· ≠ '.') with
      | [] => true
      | _ :: digits => (separated? Char.isDigit digits).isSome
    let exponentOk := match body.dropWhile fun c => !isMark c with
      | [] => mantissa.contains '.'
      | _ :: digits => (separated? Char.isDigit (dropSign digits)).isSome
    (decimal? whole).isSome && fractionOk && exponentOk

/-! ## Dates and times -/

/-- A date of ten characters that exists. -/
def isDate (cs : List Char) : Bool :=
  match cs with
  | [y₁, y₂, y₃, y₄, '-', m₁, m₂, '-', d₁, d₂] =>
    [y₁, y₂, y₃, y₄, m₁, m₂, d₁, d₂].all Char.isDigit
      && (Date.mk (Decimal.value [y₁, y₂, y₃, y₄]) (Decimal.value [m₁, m₂])
        (Decimal.value [d₁, d₂])).isValid
  | _ => false

/-- Two digits with a value of at most `limit`. -/
def isPair (limit : Nat) (a b : Char) : Bool :=
  a.isDigit && b.isDigit && Decimal.value [a, b] ≤ limit

/-- A time of day, with or without seconds and a fraction of them. -/
def isTime : List Char → Bool
  | h₁ :: h₂ :: ':' :: m₁ :: m₂ :: rest =>
    isPair 23 h₁ h₂ && isPair 59 m₁ m₂ &&
      match rest with
      | [] => true
      | [':', s₁, s₂] => isPair 60 s₁ s₂
      | ':' :: s₁ :: s₂ :: '.' :: digits =>
        isPair 60 s₁ s₂ && !digits.isEmpty && digits.all Char.isDigit
      | _ => false
  | _ => false

/-- A time of day that may carry an offset. -/
def isOffsetTime (cs : List Char) : Bool :=
  isTime cs ||
    match cs.reverse with
    | 'Z' :: front => isTime front.reverse
    | 'z' :: front => isTime front.reverse
    | m₂ :: m₁ :: ':' :: h₂ :: h₁ :: sign :: front =>
      (sign = '+' || sign = '-') && isPair 23 h₁ h₂ && isPair 59 m₁ m₂ && isTime front.reverse
    | _ => false

/-- A date, a time, or a date and a time. -/
def isMoment (cs : List Char) : Bool :=
  isDate cs || isTime cs ||
    (isDate (cs.take 10) &&
      match cs.drop 10 with
      | c :: time => (c = 'T' || c = 't' || c = ' ') && isOffsetTime time
      | [] => false)

/-! ## Any of them -/

/-- The value of one unquoted run. -/
def atom? (cs : List Char) : Option Value :=
  if cs = "true".toList then some (.boolean true)
  else if cs = "false".toList then some (.boolean false)
  else match integer? cs with
    | some i => some (.integer i)
    | none =>
      if isFloat cs then some (.float (String.ofList cs))
      else if isMoment cs then some (.moment (String.ofList cs))
      else none

/-- An unquoted value.  A date takes a time after one space with it. -/
def readAtom : Scan Value := fun cs =>
  let run := cs.takeWhile isAtomChar
  let rest := cs.dropWhile isAtomChar
  match isDate run, rest with
  | true, ' ' :: c :: more =>
    if c.isDigit then
      let time := (c :: more).takeWhile isAtomChar
      (atom? (run ++ ' ' :: time)).map (·, (c :: more).dropWhile isAtomChar)
    else (atom? run).map (·, rest)
  | _, _ => (atom? run).map (·, rest)

end DeployWatch.Toml
