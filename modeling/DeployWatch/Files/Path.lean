/-
# Paths

A path is a text.  Joining is textual: an absolute path replaces what it is joined to, and a
relative one is put behind a slash.  The parts of a path are the names between its slashes;
what they mean is up to the file tree that they are looked up in.
-/

import DeployWatch.Text.Pieces

namespace DeployWatch

/-- A path of the file system. -/
structure Path where
  text : String
  deriving DecidableEq, Repr, Inhabited

namespace Path

/-- The path starts at the root. -/
def isAbsolute (p : Path) : Bool := p.text.toList.head? = some '/'

/-- The path ends with a slash. -/
def endsWithSlash (p : Path) : Bool := p.text.toList.getLast? = some '/'

/-- A path seen from another one. -/
def join (base p : Path) : Path :=
  if p.isAbsolute then p
  else if base.text.isEmpty || base.endsWithSlash then ⟨base.text ++ p.text⟩
  else ⟨base.text ++ "/" ++ p.text⟩

/-- The names in a path. -/
def names (p : Path) : List String :=
  ((Text.Pieces.between '/' p.text.toList).filter fun piece => !piece.isEmpty).map String.ofList

/-- The path with these names, from the root or not. -/
def ofNames (absolute : Bool) (names : List String) : Path :=
  ⟨(if absolute then "/" else "") ++ String.intercalate "/" names⟩

/-- The names that count as steps: a dot counts only at the head of a relative path. -/
def steps (p : Path) : List String :=
  match p.names with
  | [] => []
  | name :: rest =>
    let rest := rest.filter (· ≠ ".")
    if name = "." && p.isAbsolute then rest else name :: rest

/-- The path without its last step; the root and the empty path have no parent. -/
def parent? (p : Path) : Option Path :=
  match p.steps.reverse with
  | [] => none
  | _ :: rest => some (ofNames p.isAbsolute rest.reverse)

/-- The last name of a path, or the empty text. -/
def baseName (p : Path) : String := p.names.getLast?.getD ""

end Path

end DeployWatch
