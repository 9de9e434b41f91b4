/-
# Hosts

The host of a URL: a name, or an address.  Names of hosts on the network are percent-decoded,
mapped to lower case and written in ASCII; a name that ends in a number is an address.  In a
URL of an unknown scheme the name of a host is kept as it stands.
-/

import DeployWatch.Url.Address
import DeployWatch.Url.Punycode

namespace DeployWatch.Url

open DeployWatch.Text

/-- A host. -/
inductive Host where
  | name (text : List Char)
  /-- An address of 32 bits. -/
  | fourBytes (address : Nat)
  /-- An address of 128 bits, as eight groups. -/
  | eightGroups (groups : List Nat)
  deriving DecidableEq, Repr, Inhabited

/-- A host as it stands in a URL. -/
def Host.text : Host → String
  | .name text => String.ofList text
  | .fourBytes address => fourBytesText address
  | .eightGroups groups => "[" ++ eightGroupsText groups ++ "]"

/-- The characters that no host may contain. -/
def hostStops : List Char := "\x00\t\n\r #/:<>?@[\\]^|".toList

/-- The characters that no name on the network may contain. -/
def isForbiddenInDomain (c : Char) : Bool :=
  hostStops.contains c || c.toNat < 32 || c.toNat = 127 || c = '%'

/-! ## Names on the network -/

/-- The code of the small letter of a Latin, Greek or Cyrillic capital. -/
def smallCode (n : Nat) : Nat :=
  if 0x41 ≤ n ∧ n ≤ 0x5A then n + 32
  else if 0xC0 ≤ n ∧ n ≤ 0xDE ∧ n ≠ 0xD7 then n + 32
  else if (0x100 ≤ n ∧ n ≤ 0x137 ∨ 0x14A ≤ n ∧ n ≤ 0x177) ∧ n % 2 = 0 then n + 1
  else if (0x139 ≤ n ∧ n ≤ 0x148 ∨ 0x179 ≤ n ∧ n ≤ 0x17E) ∧ n % 2 = 1 then n + 1
  else if 0x391 ≤ n ∧ n ≤ 0x3A9 then n + 32
  else if 0x400 ≤ n ∧ n ≤ 0x40F then n + 80
  else if 0x410 ≤ n ∧ n ≤ 0x42F then n + 32
  else n

/-- The codes that leave no trace in a name. -/
def ignoredCodes : List Nat := [0xAD, 0x200B, 0x2060, 0xFEFF]

/-- What a character of a name is mapped to: wide forms count as the ASCII character, every
kind of full stop as a dot, and capitals as small letters. -/
def mapChar (c : Char) : List Char :=
  if ignoredCodes.contains c.toNat then []
  else if c.toNat = 0x3002 ∨ c.toNat = 0xFF61 then ['.']
  else if 0xFF01 ≤ c.toNat ∧ c.toNat ≤ 0xFF5E then [Char.ofNat (smallCode (c.toNat - 0xFEE0))]
  else [Char.ofNat (smallCode c.toNat)]

/-- A label in ASCII. -/
def labelText (label : List Char) : List Char :=
  if label.all fun c => c.toNat < 128 then label else "xn--".toList ++ Punycode.encode label

/-- A name in ASCII. -/
def asciiName (name : List Char) : List Char :=
  List.intercalate ['.'] ((Pieces.between '.' (name.flatMap mapChar)).map labelText)

/-- The address in a text between brackets. -/
def bracketed? (cs : List Char) : Option Host :=
  match cs.reverse with
  | ']' :: inner => (eightGroups? inner.reverse).map .eightGroups
  | _ => none

/-- A host on the network. -/
def Host.ofDomain? (cs : List Char) : Option Host :=
  match cs with
  | '[' :: rest => bracketed? rest
  | _ => do
    let name := asciiName (← Utf8.decode? (Percent.decode cs))
    if name.isEmpty || name.any isForbiddenInDomain then none
    else if endsInNumber name then return .fourBytes (← fourBytes? name)
    else return .name name

/-- A host of a scheme that says nothing about its hosts. -/
def Host.ofAnything? (encodeControls : List Char → List Char) (cs : List Char) : Option Host :=
  match cs with
  | '[' :: rest => bracketed? rest
  | _ => if cs.any hostStops.contains then none else some (.name (encodeControls cs))

end DeployWatch.Url
