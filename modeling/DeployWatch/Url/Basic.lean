/-
# URLs

A URL in parts, each already in its normal form, and its text.  Every part has characters
that it cannot hold as they are; those are percent-encoded.
-/

import DeployWatch.Url.Host

namespace DeployWatch.Url

open DeployWatch.Text

/-! ## Parts -/

/-- The parts of a URL that differ in what they have to encode. -/
inductive Part where
  /-- A path without segments, and the host of an unknown scheme. -/
  | plain
  | credentials
  | path
  | query
  /-- The query of a scheme that is known. -/
  | knownQuery
  | fragment
  deriving DecidableEq, Repr

/-- The visible characters that a part encodes. -/
def Part.encoded : Part → String
  | plain => ""
  | credentials => " \"#<>?^`\x7b\x7d/:;=@[\\]|"
  | path => " \"#<>?^`\x7b\x7d"
  | query => " \"#<>"
  | knownQuery => " \"#<>'"
  | fragment => " \"<>`"

/-- A part can hold a character as it is: none outside ASCII, and no control character. -/
def Part.holds (part : Part) (c : Char) : Bool :=
  32 ≤ c.toNat && c.toNat < 127 && !part.encoded.toList.contains c

/-- A text as a part holds it. -/
def Part.encode (part : Part) (cs : List Char) : List Char := Percent.encode part.holds cs

/-! ## Schemes -/

/-- What is known about a scheme. -/
inductive SchemeKind where
  | file
  /-- A scheme with hosts on the network. -/
  | network
  | unknown
  deriving DecidableEq, Repr

/-- The port that a scheme uses if a URL names none. -/
def defaultPort? (scheme : String) : Option Nat :=
  [("http", 80), ("https", 443), ("ws", 80), ("wss", 443), ("ftp", 21)].lookup scheme

/-- What is known about a scheme. -/
def kindOf (scheme : String) : SchemeKind :=
  if scheme = "file" then .file
  else if (defaultPort? scheme).isSome then .network
  else .unknown

end DeployWatch.Url

namespace DeployWatch

open DeployWatch.Text DeployWatch.Url

/-- Where the resource of a URL is. -/
structure Authority where
  user : List Char := []
  password : Option (List Char) := none
  host : Url.Host
  /-- The port, unless it is the usual one. -/
  port : Option Nat := none
  deriving DecidableEq, Repr, Inhabited

/-- The path of a URL. -/
inductive UrlPath where
  | segments (list : List (List Char))
  /-- A path that is not made of segments. -/
  | text (cs : List Char)
  deriving DecidableEq, Repr, Inhabited

/-- A URL in its normal form. -/
structure Url where
  scheme : String
  authority : Option Authority := none
  path : UrlPath
  query : Option (List Char) := none
  fragment : Option (List Char) := none
  deriving DecidableEq, Repr, Inhabited

namespace Authority

/-- The name and password before the host. -/
def credentialsText (a : Authority) : String :=
  match a.user, a.password with
  | [], none => ""
  | user, none => String.ofList user ++ "@"
  | user, some password => String.ofList user ++ ":" ++ String.ofList password ++ "@"

/-- The authority as it stands in a URL. -/
def text (a : Authority) : String :=
  let port := match a.port with
    | some port => ":" ++ Decimal.text port
    | none => ""
  "//" ++ a.credentialsText ++ a.host.text ++ port

/-- The text that a percent-encoded part stands for, if it is text. -/
def plainText? (cs : List Char) : Option (List Char) := Utf8.decode? (Percent.decode cs)

/-- The authority without name and password.  They stay if they cannot be read as text: an
unreadable name keeps both, and an unreadable password counts as none. -/
def withoutCredentials (a : Authority) : Authority :=
  match plainText? a.user with
  | none => a
  | some user =>
    if user.isEmpty && (a.password.bind plainText?).isNone then a
    else { a with user := [], password := none }

end Authority

namespace Url

/-- The segments of a path, a slash before each. -/
def segmentsText (segments : List (List Char)) : String :=
  String.join (segments.map fun s => "/" ++ String.ofList s)

/-- The path as it stands in a URL.  Without an authority, a path must not look like one. -/
def pathText (u : Url) : String :=
  match u.path, u.authority with
  | .text cs, _ => String.ofList cs
  | .segments ([] :: s :: rest), none => "/." ++ segmentsText ([] :: s :: rest)
  | .segments list, _ => segmentsText list

/-- A part behind its mark, if it is there. -/
def optionalText (mark : String) : Option (List Char) → String
  | some cs => mark ++ String.ofList cs
  | none => ""

/-- The text of a URL. -/
def text (u : Url) : String :=
  u.scheme ++ ":" ++ (u.authority.map Authority.text).getD "" ++ u.pathText
    ++ optionalText "?" u.query ++ optionalText "#" u.fragment

/-- A URL without name and password. -/
def withoutCredentials (u : Url) : Url :=
  { u with authority := u.authority.map Authority.withoutCredentials }

end Url

end DeployWatch
