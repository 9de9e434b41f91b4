/-
# Credential profiles

The file in which a user keeps profiles for the provider: sections with properties.  A line
that starts with a blank continues the property before it.  What this library takes from the
file is the region that a profile names, directly or through the profile it is based on.
-/

import DeployWatch.Text.Pieces

namespace DeployWatch

/-- A section: what stands between its brackets, and its properties. -/
structure ProfileSection where
  title : String
  /-- Keys in lower case with their values; the last value of a key counts. -/
  properties : List (String × String) := []
  deriving DecidableEq, Repr, Inhabited

/-- The sections of a file. -/
structure ProfileFile where
  sections : List ProfileSection := []
  deriving DecidableEq, Repr, Inhabited

namespace ProfileFile

/-! ## Lines -/

/-- The characters that may surround names and values. -/
def isMargin (c : Char) : Bool := c = ' ' || c = '\t'

/-- A text without blanks around it. -/
def trim (cs : List Char) : List Char :=
  ((cs.dropWhile isMargin).reverse.dropWhile isMargin).reverse

/-- The characters that start a comment. -/
def isCommentMark (c : Char) : Bool := c = '#' || c = ';'

/-- What stands before a comment.  Where `needsBlank`, a comment starts only after a blank. -/
def beforeComment (needsBlank : Bool) : Bool → List Char → List Char
  | _, [] => []
  | afterBlank, c :: rest =>
    if isCommentMark c && (afterBlank || !needsBlank) then []
    else c :: beforeComment needsBlank (isMargin c) rest

/-- A line without its comment and the blanks around the rest. -/
def essence (needsBlank : Bool) (line : List Char) : List Char :=
  trim (beforeComment needsBlank false (trim line))

/-- The title in a line that opens a section. -/
def title? (line : List Char) : Option String :=
  match (essence false line).drop 1 |>.reverse with
  | ']' :: inner => some (String.ofList inner.reverse)
  | _ => none

/-- The key and the value in a line. -/
def property? (line : List Char) : Option (String × String) :=
  let line := essence true line
  let key := trim (line.takeWhile (· ≠ '='))
  match line.dropWhile (· ≠ '=') with
  | _ :: value =>
    if key.isEmpty then none
    else some (String.ofList (key.map Char.toLower), String.ofList (trim value))
  | [] => none

/-! ## Reading -/

/-- A file that is being read. -/
structure Reading where
  /-- The sections so far, the open one last. -/
  sections : List ProfileSection := []
  /-- The key that a continuation belongs to. -/
  key : Option String := none

/-- Changes the open section. -/
def Reading.updateOpen (r : Reading) (change : ProfileSection → ProfileSection) : Option Reading :=
  match r.sections.reverse with
  | [] => none
  | last :: front => some { r with sections := (change last :: front).reverse }

/-- Reads one line. -/
def Reading.line (r : Reading) (line : List Char) : Option Reading :=
  match line with
  | '[' :: _ => do
    let title ← title? line
    let again := (r.sections.filter (·.title = title)).head?.getD ⟨title, []⟩
    return { sections := r.sections.filter (·.title ≠ title) ++ [again] }
  | c :: _ =>
    if isCommentMark c || (trim line).isEmpty then some r
    else if isMargin c then do
      let key ← r.key
      r.updateOpen fun s =>
        let value := (s.properties.reverse.lookup key).getD ""
        { s with properties := s.properties ++ [(key, value ++ "\n" ++ String.ofList (trim line))] }
    else do
      let (key, value) ← property? line
      let r ← r.updateOpen fun s => { s with properties := s.properties ++ [(key, value)] }
      return { r with key := some key }
  | [] => some r

/-- The lines of a text; a carriage return before a line break does not count. -/
def linesOf (text : String) : List (List Char) :=
  (Text.Pieces.between '\n' text.toList).map fun line =>
    if line.getLast? = some '\r' then line.dropLast else line

/-- The file in a text; none if any line of it makes no sense. -/
def read? (text : String) : Option ProfileFile := do
  let r ← (linesOf text).foldlM Reading.line {}
  return ⟨r.sections⟩

/-! ## Profiles -/

/-- The profile that is used when none is named. -/
def defaultProfile : String := "default"

/-- The characters of a profile's name. -/
def isNameChar (c : Char) : Bool := c.isAlphanum || "_-/.%@:+".toList.contains c

/-- The name behind the word that marks a profile. -/
def markedName? (title : String) : Option String :=
  match trim title.toList with
  | 'p' :: 'r' :: 'o' :: 'f' :: 'i' :: 'l' :: 'e' :: c :: rest =>
    if isMargin c then some (String.ofList (trim rest)) else none
  | _ => none

/-- A section holds a profile under its full title. -/
def isMarked (name : String) (s : ProfileSection) : Bool :=
  markedName? s.title = some name && name.toList.all isNameChar

/-- The section of a profile.  The default profile needs no mark. -/
def profile? (file : ProfileFile) (name : String) : Option ProfileSection :=
  match file.sections.find? (isMarked name) with
  | some s => some s
  | none =>
    if name = defaultProfile then
      file.sections.find? fun s => trim s.title.toList = defaultProfile.toList
    else none

/-- The value of a property. -/
def propertyOf? (s : ProfileSection) (key : String) : Option String :=
  s.properties.reverse.lookup key

/-- The region of a profile, or of the profile it is based on, up to so many steps away. -/
def regionWithin? (file : ProfileFile) : Nat → String → Option String
  | 0, _ => none
  | steps + 1, name => do
    let s ← file.profile? name
    match propertyOf? s "region" with
    | some region => some region
    | none => regionWithin? file steps (← propertyOf? s "source_profile")

/-- The region of a profile.  No chain of profiles is longer than the file. -/
def region? (file : ProfileFile) (name : String) : Option String :=
  file.regionWithin? file.sections.length name

end ProfileFile

/-- The region that requests are sent to: the one in the environment, else that of the
profile asked for, of the profile in the environment, or of the default profile. -/
def regionOf (file : ProfileFile) (env : List (String × String)) (profile : Option String) :
    Option String :=
  let name := (profile.or (env.lookup "AWS_PROFILE")).getD ProfileFile.defaultProfile
  ((env.lookup "AWS_REGION").or (env.lookup "AWS_DEFAULT_REGION")).or (file.region? name)

end DeployWatch
