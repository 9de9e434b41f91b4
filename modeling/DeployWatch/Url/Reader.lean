/-
# Reading URLs

The URL in a text, in its normal form.  Blanks around the text and line breaks and tabs in it
do not count.  In a URL of a known scheme a backslash counts as a slash, any number of slashes
may follow the scheme, and there has to be a host.  Dots are taken out of the path: one dot
stands for the same place, two for the place above.
-/

import DeployWatch.Url.Basic

namespace DeployWatch.Url

open DeployWatch.Text

/-! ## Paths -/

/-- The spellings of a dot. -/
def isDot (cs : List Char) : Bool :=
  cs = ['.'] || cs = ['%', '2', 'e'] || cs = ['%', '2', 'E']

/-- A segment that stands for the same place. -/
def isSingleDot (segment : List Char) : Bool := isDot segment

/-- A segment that stands for the place above. -/
def isDoubleDot (segment : List Char) : Bool :=
  match segment with
  | '.' :: rest => isDot rest
  | '%' :: '2' :: e :: rest => isDot ['%', '2', e] && isDot rest
  | _ => false

/-- A drive of a local file system: a letter and a colon, or a bar instead of it. -/
def isDrive (segment : List Char) : Bool :=
  match segment with
  | [letter, mark] => letter.isAlpha && (mark = ':' || mark = '|')
  | _ => false

/-- The path one place up, the last segment standing first.  A drive is left only by name. -/
def above (kind : SchemeKind) (path : List (List Char)) : List (List Char) :=
  match path with
  | [segment] => if kind = .file && isDrive segment then [segment] else []
  | _ :: rest => rest
  | [] => []

/-- A segment as it stands in the path behind others. -/
def placed (kind : SchemeKind) (isFirst : Bool) (segment : List Char) : List Char :=
  match segment with
  | [letter, _] => if kind = .file && isFirst && isDrive segment then [letter, ':'] else segment
  | _ => segment

/-- Takes the dots out of a path; `done` holds the segments so far, the last one first. -/
def resolveDots (kind : SchemeKind) (done : List (List Char)) :
    List (List Char) → List (List Char)
  | [] => done.reverse
  | segment :: rest =>
    let done :=
      if isDoubleDot segment then
        if rest.isEmpty then [] :: above kind done else above kind done
      else if isSingleDot segment then
        if rest.isEmpty then [] :: done else done
      else placed kind done.isEmpty segment :: done
    resolveDots kind done rest

/-- The segments of a path behind its first slash. -/
def segmentsOf (kind : SchemeKind) (cs : List Char) : List (List Char) :=
  let cs := if kind = .unknown then cs else cs.map fun c => if c = '\\' then '/' else c
  let list := resolveDots kind [] ((Pieces.between '/' cs).map Part.path.encode)
  match kind with
  | .file =>
    match list.dropWhile List.isEmpty with
    | [] => [[]]
    | list => list
  | _ => list

/-! ## Authorities -/

/-- The texts before and behind the last occurrence of a mark. -/
def splitAtLast? (mark : Char) (cs : List Char) : Option (List Char × List Char) :=
  match (Pieces.between mark cs).reverse with
  | last :: front@(_ :: _) => some (List.intercalate [mark] front.reverse, last)
  | _ => none

/-- The texts before and behind the first occurrence of a mark. -/
def splitAtFirst (mark : Char) (cs : List Char) : List Char × Option (List Char) :=
  match cs.dropWhile (· ≠ mark) with
  | [] => (cs, none)
  | _ :: rest => (cs.takeWhile (· ≠ mark), some rest)

/-- The host and the text of the port behind it. -/
def splitPort (cs : List Char) : List Char × Option (List Char) :=
  match cs with
  | '[' :: _ =>
    match splitAtLast? ']' cs with
    | some (inner, []) => (inner ++ [']'], none)
    | some (inner, ':' :: port) => (inner ++ [']'], some port)
    | _ => (cs, none)
  | _ => splitAtFirst ':' cs

/-- A port, unless it is missing or the usual one of the scheme. -/
def port? (scheme : String) : Option (List Char) → Option (Option Nat)
  | none => some none
  | some [] => some none
  | some ds => do
    let port ← Decimal.below? 65536 ds
    return if defaultPort? scheme = some port then none else some port

/-- The authority in a text. -/
def authority? (scheme : String) (cs : List Char) : Option Authority := do
  let (credentials, place) := match splitAtLast? '@' cs with
    | some (credentials, place) => (some credentials, place)
    | none => (none, cs)
  let (hostText, portText) := splitPort place
  if hostText.isEmpty && (kindOf scheme ≠ .unknown || portText.isSome || credentials.isSome) then
    none
  else
    let host ← match kindOf scheme with
      | .unknown => Host.ofAnything? Part.plain.encode hostText
      | _ => Host.ofDomain? hostText
    let port ← port? scheme portText
    let (user, password) := splitAtFirst ':' (credentials.getD [])
    return {
      user := Part.credentials.encode user
      password := if password = some [] then none else password.map Part.credentials.encode
      host
      port }

/-! ## URLs -/

/-- The characters of a scheme behind its first letter. -/
def isSchemeChar (c : Char) : Bool := c.isAlphanum || c = '+' || c = '-' || c = '.'

/-- A control character or a space. -/
def isMargin (c : Char) : Bool := c.toNat ≤ 32

/-- A line break or a tab. -/
def isBreak (c : Char) : Bool := c = '\t' || c = '\n' || c = '\r'

/-- The text that counts: no margin, no breaks. -/
def essential (cs : List Char) : List Char :=
  ((cs.dropWhile isMargin).reverse.dropWhile isMargin).reverse.filter fun c => !isBreak c

/-- The scheme in lower case, and what follows its colon. -/
def scheme? (cs : List Char) : Option (String × List Char) :=
  match splitAtFirst ':' cs with
  | (name, some rest) =>
    if name.head?.any Char.isAlpha && name.all isSchemeChar then
      some (String.ofList (name.map Char.toLower), rest)
    else none
  | _ => none

/-- A slash, or what counts as one. -/
def isSlash (kind : SchemeKind) (c : Char) : Bool := c = '/' || (kind ≠ .unknown && c = '\\')

/-- The text of the place that is named, and the text of the path behind the next slash. -/
def splitPlace (kind : SchemeKind) (cs : List Char) : List Char × Option (List Char) :=
  match cs.dropWhile (fun c => !isSlash kind c) with
  | [] => (cs, none)
  | _ :: path => (cs.takeWhile (fun c => !isSlash kind c), some path)

/-- The authority of a file without a host. -/
def nowhere : Authority := { host := .name [] }

/-- The host of a file and the text of its path, behind two slashes.  The local host goes
without saying, and so does the host of a file on a drive. -/
def filePlace? (cs : List Char) : Option (Authority × List Char) :=
  let (place, path) := splitPlace .file cs
  let path := path.getD []
  if isDrive place then some (nowhere, cs)
  else if place.isEmpty then some (nowhere, path)
  else
    (Host.ofDomain? place).map fun host =>
      if host = .name "localhost".toList
          || isDrive ((segmentsOf .file path).head?.getD []) then (nowhere, path)
      else ({ host }, path)

/-- The authority of a URL, and the text of its path behind the first slash; none where there
is no such slash. -/
def placeAndPath? (scheme : String) (cs : List Char) :
    Option (Option Authority × Option (List Char)) :=
  match kindOf scheme with
  | .network => do
    let (place, path) := splitPlace .network (cs.dropWhile (isSlash .network))
    return (some (← authority? scheme place), some (path.getD []))
  | .file => do
    match cs.span (isSlash .file) with
    | (_ :: _ :: _, _) =>
      let (authority, path) ← filePlace? (cs.drop 2)
      return (some authority, some path)
    | (_, path) => return (some nowhere, some path)
  | .unknown =>
    match cs with
    | '/' :: '/' :: rest => do
      let (place, path) := splitPlace .unknown rest
      return (some (← authority? scheme place), path)
    | '/' :: path => some (none, some path)
    | _ => some (none, none)

/-- The path of a URL, from the text behind its first slash or, without one, from all of it. -/
def pathOf (scheme : String) (hasAuthority : Bool) (whole : List Char) :
    Option (List Char) → UrlPath
  | some path => .segments (segmentsOf (kindOf scheme) path)
  | none => if hasAuthority then .segments [] else .text (Part.plain.encode whole)

end DeployWatch.Url

namespace DeployWatch

open DeployWatch.Url

/-- The URL in a text, if there is one. -/
def Url.read? (text : String) : Option Url := do
  let (scheme, rest) ← scheme? (essential text.toList)
  let (rest, fragment) := splitAtFirst '#' rest
  let (rest, query) := splitAtFirst '?' rest
  let (authority, path) ← placeAndPath? scheme rest
  let queryPart := if kindOf scheme = .unknown then Part.query else Part.knownQuery
  return {
    scheme
    authority
    path := pathOf scheme authority.isSome rest path
    query := query.map queryPart.encode
    fragment := fragment.map Part.fragment.encode }

end DeployWatch
