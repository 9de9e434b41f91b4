/-
# Decimal numbers

Reading and writing whole numbers in base ten.  A reader is told the exclusive bound of the
numbers it may return and refuses everything above it; any number of leading zeros is fine.
-/

namespace DeployWatch.Text.Decimal

/-- The exclusive bound of a 32-bit word. -/
def wordBound : Nat := 1 <<< 32

/-- The exclusive bound of a 64-bit word. -/
def longBound : Nat := 1 <<< 64

/-- The digits of a natural number, without leading zeros. -/
def digits (n : Nat) : List Char := Nat.toDigits 10 n

/-- The number written by a list of digits; the empty list writes zero. -/
def value (ds : List Char) : Nat := Nat.ofDigitChars 10 ds 0

theorem value_digits (n : Nat) : value (digits n) = n :=
  Nat.ofDigitChars_toDigits (by decide) (by decide)

/-- The digits of `n` with zeros in front up to `width` places. -/
def padded (width n : Nat) : List Char :=
  List.replicate (width - (digits n).length) '0' ++ digits n

/-- The digits of an integer, with a minus sign when it is negative. -/
def signedDigits (i : Int) : List Char :=
  if i < 0 then '-' :: digits i.natAbs else digits i.natAbs

/-- A non-empty run of digits whose value is below `bound`. -/
def below? (bound : Nat) (ds : List Char) : Option Nat :=
  if ds.isEmpty || !ds.all Char.isDigit then none
  else if value ds < bound then some (value ds) else none

/-- An integer of 64 bits in two's complement: a run of digits after an optional sign. -/
def signed? : List Char → Option Int
  | '-' :: ds => (below? (longBound / 2 + 1) ds).map fun n => -(n : Int)
  | '+' :: ds => (below? (longBound / 2) ds).map Int.ofNat
  | ds => (below? (longBound / 2) ds).map Int.ofNat

/-- The decimal text of a natural number. -/
def text (n : Nat) : String := String.ofList (digits n)

/-- The decimal text of an integer. -/
def signedText (i : Int) : String := String.ofList (signedDigits i)

end DeployWatch.Text.Decimal
