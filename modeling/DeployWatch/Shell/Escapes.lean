/-
# Escapes and formats

The escapes that `echo` and `printf` understand, and the formats of `printf`.  The output is
bytes, because an octal escape may write any of them.
-/

import DeployWatch.Text.Decimal
import DeployWatch.Text.Percent
import DeployWatch.Text.Utf8

namespace DeployWatch.Shell

open DeployWatch.Text

/-- An octal digit. -/
def isOctal (c : Char) : Bool := '0' ≤ c && c ≤ '7'

/-- The byte of up to three octal digits, and how many there are. -/
def octal (cs : List Char) : UInt8 × Nat :=
  let ds := (cs.take 3).takeWhile isOctal
  (UInt8.ofNat (ds.foldl (fun n d => 8 * n + (d.toNat - 48)) 0), ds.length)

/-- The byte that a letter after a backslash stands for. -/
def escapeByte? : Char → Option UInt8
  | 'a' => some 7
  | 'b' => some 8
  | 't' => some 9
  | 'n' => some 10
  | 'v' => some 11
  | 'f' => some 12
  | 'r' => some 13
  | '\\' => some 92
  | _ => none

/-- The bytes of a text with escapes, and whether the text asks for no more output.  With
`leadingZero` an octal escape may carry a zero before its three digits, and `\c` ends the
output. -/
def unescape (leadingZero : Bool) (cs : List Char) : List UInt8 × Bool :=
  match cs with
  | [] => ([], false)
  | '\\' :: c :: rest =>
    if leadingZero && c = 'c' then ([], true)
    else if isOctal c then
      let body := if leadingZero && c = '0' then rest else c :: rest
      let (byte, n) := octal body
      let (more, stop) := unescape leadingZero (body.drop n)
      (byte :: more, stop)
    else
      let (more, stop) := unescape leadingZero rest
      match escapeByte? c with
      | some byte => (byte :: more, stop)
      | none => (92 :: String.utf8EncodeChar c ++ more, stop)
  | c :: rest =>
    let (more, stop) := unescape leadingZero rest
    (String.utf8EncodeChar c ++ more, stop)
termination_by cs.length
decreasing_by all_goals grind

/-- A conversion of a format. -/
structure Conversion where
  /-- Pad on the right. -/
  left : Bool
  /-- Pad with zeros. -/
  zeros : Bool
  width : Nat
  precision : Option Nat
  kind : Char

/-- The conversion after a percent sign, and what follows it. -/
def conversion? (cs : List Char) : Option (Conversion × List Char) :=
  let isFlag c := "-0+ #".toList.contains c
  let flags := cs.takeWhile isFlag
  let cs := cs.dropWhile isFlag
  let width := cs.takeWhile Char.isDigit
  let cs := cs.dropWhile Char.isDigit
  let (precision, cs) : Option Nat × List Char := match cs with
    | '.' :: rest => (some (Decimal.value (rest.takeWhile Char.isDigit)),
        rest.dropWhile Char.isDigit)
    | cs => (none, cs)
  match cs with
  | kind :: rest =>
    some (⟨flags.contains '-', flags.contains '0', Decimal.value width, precision, kind⟩, rest)
  | [] => none

/-- Bytes padded to the width of a conversion. -/
def pad (c : Conversion) (isNumber : Bool) (bytes : List UInt8) : List UInt8 :=
  let missing := c.width - bytes.length
  if c.left then bytes ++ List.replicate missing 32
  else if c.zeros && isNumber then
    match bytes with
    | 45 :: digits => 45 :: List.replicate missing 48 ++ digits
    | digits => List.replicate missing 48 ++ digits
  else List.replicate missing 32 ++ bytes

/-- The bytes of an argument under a conversion, and whether they end the output. -/
def convert (c : Conversion) (arg : String) : List UInt8 × Bool :=
  let number := (Decimal.signed? arg.toList).getD 0
  match c.kind with
  | 's' =>
    let bytes := Utf8.bytes arg
    (pad c false (match c.precision with
      | some n => bytes.take n
      | none => bytes), false)
  | 'b' =>
    let (bytes, stop) := unescape true arg.toList
    (pad c false bytes, stop)
  | 'c' => (pad c false ((Utf8.bytes arg).take 1), false)
  | 'd' => (pad c true (Utf8.encode (Decimal.signedDigits number)), false)
  | 'i' => (pad c true (Utf8.encode (Decimal.signedDigits number)), false)
  | 'u' => (pad c true (Utf8.encode (Decimal.signedDigits number)), false)
  | 'x' => (pad c true (Utf8.encode (Nat.toDigits 16 number.toNat)), false)
  | 'X' => (pad c true (Utf8.encode ((Nat.toDigits 16 number.toNat).map Char.toUpper)), false)
  | 'o' => (pad c true (Utf8.encode (Nat.toDigits 8 number.toNat)), false)
  | _ => ([], false)

/-- One pass over a format: the bytes, the arguments left, and whether the output ends. -/
def formatOnce : Nat → List Char → List String → List UInt8 × List String × Bool
  | 0, _, args => ([], args, true)
  | _, [], args => ([], args, false)
  | fuel + 1, '%' :: '%' :: rest, args =>
    let (more, args, stop) := formatOnce fuel rest args
    (37 :: more, args, stop)
  | fuel + 1, '%' :: rest, args =>
    match conversion? rest with
    | none => ([], args, true)
    | some (c, rest) =>
      let (bytes, ends) := convert c (args.head?.getD "")
      if ends then (bytes, args.drop 1, true)
      else
        let (more, args, stop) := formatOnce fuel rest (args.drop 1)
        (bytes ++ more, args, stop)
  | fuel + 1, '\\' :: c :: rest, args =>
    if isOctal c then
      let (byte, n) := octal (c :: rest)
      let (more, args, stop) := formatOnce fuel ((c :: rest).drop n) args
      (byte :: more, args, stop)
    else
      let (more, args, stop) := formatOnce fuel rest args
      match escapeByte? c with
      | some byte => (byte :: more, args, stop)
      | none => (if c = '"' then 34 :: more else 92 :: String.utf8EncodeChar c ++ more, args, stop)
  | fuel + 1, c :: rest, args =>
    let (more, args, stop) := formatOnce fuel rest args
    (String.utf8EncodeChar c ++ more, args, stop)

/-- The output of `printf`: the format is used again while arguments are left. -/
def formatAll (format : String) : Nat → List String → List UInt8
  | 0, _ => []
  | fuel + 1, args =>
    let (bytes, left, stop) := formatOnce (format.length + 1) format.toList args
    if stop || left.isEmpty || left.length = args.length then bytes
    else bytes ++ formatAll format fuel left

/-- The output of `echo`. -/
def echoOutput (args : List String) : List UInt8 :=
  let (newline, args) := match args with
    | "-n" :: rest => (false, rest)
    | args => (true, args)
  let (bytes, stop) := unescape true (String.intercalate " " args).toList
  if stop || !newline then bytes else bytes ++ [10]

end DeployWatch.Shell
