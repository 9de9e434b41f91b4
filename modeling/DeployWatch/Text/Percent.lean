/-
# Percent encoding

Bytes outside a set of plain characters are written as `%` and two upper-case hexadecimal
digits.  Form bodies keep the unreserved characters of URLs; the parts of a URL keep sets of
their own.
-/

import DeployWatch.Text.Utf8

namespace DeployWatch.Text.Percent

/-- The hexadecimal digit of a value below sixteen. -/
def hexDigit (n : Nat) : Char := if n < 10 then Char.ofNat (48 + n) else Char.ofNat (55 + n)

/-- A byte as a percent sign and two digits. -/
def escape (b : UInt8) : List Char := ['%', hexDigit (b.toNat / 16), hexDigit (b.toNat % 16)]

/-- Writes one character: itself if it is plain, else its bytes escaped. -/
def encodeChar (isPlain : Char → Bool) (c : Char) : List Char :=
  if isPlain c then [c] else (String.utf8EncodeChar c).flatMap escape

/-- Writes a text with every character that is not plain escaped. -/
def encode (isPlain : Char → Bool) (cs : List Char) : List Char :=
  cs.flatMap (encodeChar isPlain)

/-- Letters, digits and `-._~`, which no encoding needs to touch. -/
def isUnreserved (c : Char) : Bool :=
  c.isAlphanum || c = '-' || c = '.' || c = '_' || c = '~'

/-- A value in a form body. -/
def formValue (text : String) : String := String.ofList (encode isUnreserved text.toList)

/-- The value of a hexadecimal digit. -/
def hexValue? (c : Char) : Option Nat :=
  if c.isDigit then some (c.toNat - 48)
  else if 'a' ≤ c && c ≤ 'f' then some (c.toNat - 87)
  else if 'A' ≤ c && c ≤ 'F' then some (c.toNat - 55)
  else none

/-- The bytes of a text in which `%` and two hexadecimal digits stand for a byte; any other
percent sign stands for itself. -/
def decode : List Char → List UInt8
  | [] => []
  | '%' :: a :: b :: rest =>
    match hexValue? a, hexValue? b with
    | some x, some y => UInt8.ofNat (16 * x + y) :: decode rest
    | _, _ => 37 :: decode (a :: b :: rest)
  | c :: rest => String.utf8EncodeChar c ++ decode rest
termination_by cs => cs.length

end DeployWatch.Text.Percent
