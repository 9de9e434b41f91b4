/-
# The lexical level of TOML

White space, comments, line ends and keys.  Every reader takes a list of characters and
gives what it has read together with the rest, or nothing if the document is malformed.
-/

namespace DeployWatch.Toml

/-- A reader of something at the head of a text. -/
abbrev Scan (α : Type) := List Char → Option (α × List Char)

/-- White space within a line. -/
def isLineSpace (c : Char) : Bool := c = ' ' || c = '\t'

/-- A character that may stand unescaped in a comment or a string on one line: no control
character but the tab. -/
def isVisible (c : Char) : Bool := c = '\t' || (0x20 ≤ c.toNat && c.toNat ≠ 0x7F)

/-- Drops white space within a line. -/
def skipSpace (cs : List Char) : List Char := cs.dropWhile isLineSpace

/-- Drops the rest of a comment, but not the line end after it. -/
def skipComment : List Char → Option (List Char)
  | [] => some []
  | '\n' :: rest => some ('\n' :: rest)
  | '\r' :: '\n' :: rest => some ('\n' :: rest)
  | c :: rest => if isVisible c then skipComment rest else none

/-- Drops a comment, if one begins here. -/
def skipCommentHere : List Char → Option (List Char)
  | '#' :: rest => skipComment rest
  | rest => some rest

/-- The start of the next line, when nothing but white space and a comment is left of this
one. -/
def endLine (cs : List Char) : Option (List Char) := do
  match ← skipCommentHere (skipSpace cs) with
  | [] => some []
  | '\n' :: rest => some rest
  | '\r' :: '\n' :: rest => some rest
  | _ => none

/-- Drops white space, comments and line ends, at most `fuel` lines of them. -/
def skipLines (fuel : Nat) (cs : List Char) : Option (List Char) :=
  match skipCommentHere (skipSpace cs) with
  | none => none
  | some rest =>
    match rest, fuel with
    | '\n' :: rest, fuel + 1 => skipLines fuel rest
    | '\r' :: '\n' :: rest, fuel + 1 => skipLines fuel rest
    | rest, _ => some rest

/-- Drops white space, comments and line ends. -/
def skipGap (cs : List Char) : Option (List Char) := skipLines cs.length cs

end DeployWatch.Toml
