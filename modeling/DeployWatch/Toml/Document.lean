/-
# TOML documents

Reading happens in two passes.  The first turns the text into statements, one a line:
headers, headers of table series, and assignments.  The second applies the statements to a
tree of tables.  A document that either pass refuses has no meaning at all.
-/

import DeployWatch.Toml.Scalars
import DeployWatch.Toml.Strings
import DeployWatch.Toml.Tree

namespace DeployWatch.Toml

/-! ## Keys -/

/-- Characters of a key without quotes. -/
def isBareKeyChar (c : Char) : Bool := c.isAlphanum || c = '_' || c = '-'

/-- One part of a key. -/
def readKeyPart : Scan String
  | '"' :: rest => (readBasic rest).map fun r => (String.ofList r.1, r.2)
  | '\'' :: rest => (readLiteral rest).map fun r => (String.ofList r.1, r.2)
  | cs =>
    if (cs.takeWhile isBareKeyChar).isEmpty then none
    else some (String.ofList (cs.takeWhile isBareKeyChar), cs.dropWhile isBareKeyChar)

/-- The parts of a dotted key, at most `fuel` dots, with the white space after them. -/
def readParts (fuel : Nat) (cs : List Char) : Option (List String × List Char) :=
  match readKeyPart cs with
  | none => none
  | some (part, rest) =>
    match skipSpace rest, fuel with
    | '.' :: rest, fuel + 1 =>
      (readParts fuel (skipSpace rest)).map fun r => (part :: r.1, r.2)
    | rest, _ => some ([part], rest)

/-- A key: the tables it passes through, and its last part. -/
structure Key where
  /-- The tables on the way. -/
  path : List String
  /-- The last part. -/
  name : String
  deriving DecidableEq, Repr

/-- A key with the white space after it. -/
def readKey : Scan Key := fun cs => do
  let (parts, rest) ← readParts cs.length cs
  match parts.reverse with
  | [] => none
  | name :: path => some (⟨path.reverse, name⟩, rest)

/-! ## Values -/

/-- How deep arrays and tables in braces may be nested. -/
def maxDepth : Nat := 80

/-- The items of an array after its opening bracket, at most `fuel` of them. -/
def readItems (element : Scan Value) : Nat → Scan (List Value)
  | 0, _ => none
  | fuel + 1, cs => do
    match ← skipGap cs with
    | ']' :: rest => some ([], rest)
    | cs =>
      let (value, rest) ← element cs
      match ← skipGap rest with
      | ',' :: rest => (readItems element fuel rest).map fun r => (value :: r.1, r.2)
      | ']' :: rest => some ([value], rest)
      | _ => none

/-- An assignment `key = value`. -/
def readAssignment (element : Scan Value) : Scan (Key × Value) := fun cs => do
  let (key, rest) ← readKey cs
  match rest with
  | '=' :: rest => (element (skipSpace rest)).map fun r => ((key, r.1), r.2)
  | _ => none

/-- The assignments of a table in braces after its opening brace, at most `fuel` of them. -/
def readFields (element : Scan Value) : Nat → Scan (List (Key × Value))
  | 0, _ => none
  | fuel + 1, cs => do
    match ← skipGap cs with
    | '\x7d' :: rest => some ([], rest)
    | cs =>
      let (field, rest) ← readAssignment element cs
      match ← skipGap rest with
      | ',' :: rest => (readFields element fuel rest).map fun r => (field :: r.1, r.2)
      | '\x7d' :: rest => some ([field], rest)
      | _ => none

/-- The table that a list of assignments makes. -/
def tableOf? (fields : List (Key × Value)) : Option Value := do
  let children ← fields.foldlM (fun children field =>
    Children.assign field.1.path field.1.name field.2 children) ([] : Children)
  some (.table (Tree.entries children))

/-- A value, in which arrays and tables may be nested `depth` deep. -/
def readValue (depth : Nat) : Scan Value
  | '[' :: rest =>
    match depth with
    | 0 => none
    | depth + 1 =>
      (readItems (readValue depth) (rest.length + 1) rest).map fun r => (.array r.1, r.2)
  | '\x7b' :: rest =>
    match depth with
    | 0 => none
    | depth + 1 => do
      let (fields, rest) ← readFields (readValue depth) (rest.length + 1) rest
      (tableOf? fields).map (·, rest)
  | '"' :: rest => (readString ('"' :: rest)).map fun r => (.text r.1, r.2)
  | '\'' :: rest => (readString ('\'' :: rest)).map fun r => (.text r.1, r.2)
  | cs => readAtom cs

/-! ## Statements -/

/-- One line of a document. -/
inductive Statement where
  /-- A header in brackets. -/
  | header (key : Key)
  /-- A header in double brackets. -/
  | seriesHeader (key : Key)
  | assignment (key : Key) (value : Value)
  deriving Repr

/-- A statement, without the rest of its line. -/
def readStatement : Scan Statement
  | '[' :: '[' :: rest => do
    match ← readKey (skipSpace rest) with
    | (key, ']' :: ']' :: rest) => some (.seriesHeader key, rest)
    | _ => none
  | '[' :: rest => do
    match ← readKey (skipSpace rest) with
    | (key, ']' :: rest) => some (.header key, rest)
    | _ => none
  | cs => (readAssignment (readValue maxDepth) cs).map fun r => (.assignment r.1.1 r.1.2, r.2)

/-- The statements of a document, at most `fuel` of them. -/
def readStatements (fuel : Nat) (cs : List Char) : Option (List Statement) :=
  match skipGap cs with
  | none => none
  | some [] => some []
  | some cs =>
    match fuel with
    | 0 => none
    | fuel + 1 => do
      let (statement, rest) ← readStatement cs
      (statement :: ·) <$> readStatements fuel (← endLine rest)

/-! ## Documents -/

/-- The tables made so far, and the table that assignments go to. -/
structure Draft where
  /-- The document's top-level table. -/
  root : Children := []
  /-- The path of the last header; empty before the first one. -/
  current : List String := []

/-- Applies one statement. -/
def Draft.apply (draft : Draft) : Statement → Option Draft
  | .header key => do
    some ⟨← Children.openTable key.path key.name draft.root, key.path ++ [key.name]⟩
  | .seriesHeader key => do
    some ⟨← Children.openSeries key.path key.name draft.root, key.path ++ [key.name]⟩
  | .assignment key value => do
    let root ← Children.update false
      (fun _ children => Children.assign key.path key.name value children)
      draft.current .named draft.root
    some { draft with root }

/-- The top-level table of a document. -/
def Document.ofStatements? (statements : List Statement) : Option Table := do
  let draft ← statements.foldlM Draft.apply {}
  some (Tree.entries draft.root)

/-- A text without the byte order mark it may begin with. -/
def dropMark (cs : List Char) : List Char :=
  match cs with
  | c :: rest => if c.toNat = 0xFEFF then rest else cs
  | [] => []

/-- The top-level table of a document, from its text. -/
def Document.read? (text : String) : Option Table := do
  let cs := dropMark text.toList
  Document.ofStatements? (← readStatements (cs.length + 1) cs)

end DeployWatch.Toml
