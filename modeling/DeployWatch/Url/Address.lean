/-
# Network addresses

Addresses of 32 and of 128 bits as they are written in URLs.  A 32-bit address has up to four
numbers, each in decimal, octal or hexadecimal; the last one fills all the bytes that are
left.  A 128-bit address has eight groups of hexadecimal digits, of which one run of zeros may
be left out, and its last two groups may be written as a dotted 32-bit address.
-/

import DeployWatch.Text.Decimal
import DeployWatch.Text.Percent
import DeployWatch.Text.Pieces

namespace DeployWatch.Url

open DeployWatch.Text

/-- The number that digits write in a base up to sixteen. -/
def numberIn (base : Nat) (ds : List Char) : Nat :=
  ds.foldl (fun n c => n * base + (Percent.hexValue? c).getD 0) 0

/-! ## Four bytes -/

/-- The base and the digits of a number. -/
def baseOf : List Char → Nat × List Char
  | '0' :: 'x' :: ds => (16, ds)
  | '0' :: 'X' :: ds => (16, ds)
  | '0' :: d :: ds => (8, d :: ds)
  | ds => (10, ds)

/-- A number in one of the three bases; a base without digits writes zero. -/
def partValue? (part : List Char) : Option Nat :=
  if part.isEmpty then none
  else
    let (base, ds) := baseOf part
    if ds.all fun c => (Percent.hexValue? c).any (· < base) then some (numberIn base ds) else none

/-- The parts of a name, without the empty one behind a final dot. -/
def partsOf (name : List Char) : List (List Char) :=
  let parts := Pieces.between '.' name
  if parts.getLast? = some [] then parts.dropLast else parts

/-- A name whose last part is a number has to be an address. -/
def endsInNumber (name : List Char) : Bool :=
  match (partsOf name).getLast? with
  | none => false
  | some part => (!part.isEmpty && part.all Char.isDigit) || (partValue? part).isSome

/-- The address that a name writes. -/
def fourBytes? (name : List Char) : Option Nat := do
  let numbers ← (partsOf name).mapM partValue?
  let last ← numbers.getLast?
  let front := numbers.dropLast
  if numbers.length > 4 || front.any (· > 255) || last ≥ 1 <<< (8 * (4 - front.length)) then none
  else
    let bytes := front ++ List.replicate (4 - front.length) 0
    some (bytes.foldl (fun n b => n * 256 + b) 0 + last)

/-- Four bytes in decimal with dots between them. -/
def fourBytesText (address : Nat) : String :=
  String.intercalate "." ([24, 16, 8, 0].map fun shift =>
    Decimal.text (address >>> shift % 256))

/-! ## Eight groups -/

/-- A byte in decimal without leading zeros. -/
def plainByte? (ds : List Char) : Option Nat :=
  if ds.length > 1 && ds.head? = some '0' then none else Decimal.below? 256 ds

/-- A group of one to four hexadecimal digits. -/
def group? (ds : List Char) : Option Nat :=
  if ds.isEmpty || ds.length > 4 || !ds.all (fun c => (Percent.hexValue? c).isSome) then none
  else some (numberIn 16 ds)

/-- Two groups written as four bytes. -/
def dottedGroups? (cs : List Char) : Option (List Nat) := do
  match ← (Pieces.between '.' cs).mapM plainByte? with
  | [a, b, c, d] => some [a * 256 + b, c * 256 + d]
  | _ => none

/-- Groups with colons between them; the last may be dotted if `mayEndDotted`. -/
def groups? (mayEndDotted : Bool) (cs : List Char) : Option (List Nat) := do
  if cs.isEmpty then some []
  else
    let parts := Pieces.between ':' cs
    let front ← parts.dropLast.mapM group?
    let last := parts.getLast?.getD []
    if mayEndDotted && last.contains '.' then return front ++ (← dottedGroups? last)
    else return front ++ [← group? last]

/-- The texts on both sides of the first two colons in a row. -/
def splitAtGap : List Char → List Char × Option (List Char)
  | [] => ([], none)
  | ':' :: ':' :: rest => ([], some rest)
  | c :: rest => let (front, back) := splitAtGap rest; (c :: front, back)

/-- The address that a text between brackets writes. -/
def eightGroups? (cs : List Char) : Option (List Nat) := do
  match splitAtGap cs with
  | (whole, none) =>
    let groups ← groups? true whole
    if groups.length = 8 then some groups else none
  | (front, some back) =>
    let front ← groups? false front
    let back ← groups? true back
    if front.length + back.length ≤ 7 then
      some (front ++ List.replicate (8 - front.length - back.length) 0 ++ back)
    else none

/-- The length of the run of zeros at the head of a list. -/
def zeroRun (groups : List Nat) : Nat := (groups.takeWhile (· = 0)).length

/-- Where the first of the longest runs of zeros starts, and its length. -/
def longestZeroRun (groups : List Nat) : Nat × Nat :=
  (List.range groups.length).foldl (fun best i =>
    let run := zeroRun (groups.drop i)
    if run > best.2 then (i, run) else best) (0, 0)

/-- A group in hexadecimal. -/
def groupText (n : Nat) : String := String.ofList (Nat.toDigits 16 n)

/-- Groups with colons between them. -/
def groupsText (groups : List Nat) : String := String.intercalate ":" (groups.map groupText)

/-- Eight groups, with the longest run of at least two zeros left out. -/
def eightGroupsText (groups : List Nat) : String :=
  let (start, length) := longestZeroRun groups
  if length < 2 then groupsText groups
  else groupsText (groups.take start) ++ "::" ++ groupsText (groups.drop (start + length))

end DeployWatch.Url
