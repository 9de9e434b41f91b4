/-
# Patterns of the shell

A pattern is a text in which some characters are active: an active star stands for any
characters, an active question mark for one, and an active bracket opens a set.  Quoted
characters are never active.
-/

namespace DeployWatch.Shell

/-- A character, and whether it may be special. -/
abbrev Mark := Char × Bool

/-- The text of a pattern. -/
def plain (pattern : List Mark) : List Char := pattern.map (·.1)

/-- A character belongs to the items of a set: single characters and ranges. -/
def inSet (c : Char) : List Char → Bool
  | a :: '-' :: b :: rest => (a ≤ c && c ≤ b) || inSet c rest
  | a :: rest => a = c || inSet c rest
  | [] => false

/-- The items of a set after its opening bracket, and what follows it. -/
def setItems : List Mark → Option (List Char × List Mark)
  | [] => none
  | (c, _) :: rest =>
    let body := rest.takeWhile (·.1 ≠ ']')
    match rest.dropWhile (·.1 ≠ ']') with
    | _ :: after => some (c :: plain body, after)
    | [] => none

/-- A pattern matches the whole of a text, comparing at most `fuel` times. -/
def matchesUpTo : Nat → List Mark → List Char → Bool
  | 0, _, _ => false
  | _, [], cs => cs.isEmpty
  | fuel + 1, ('*', true) :: rest, cs =>
    matchesUpTo fuel rest cs ||
      match cs with
      | _ :: more => matchesUpTo fuel (('*', true) :: rest) more
      | [] => false
  | fuel + 1, ('?', true) :: rest, cs =>
    match cs with
    | _ :: more => matchesUpTo fuel rest more
    | [] => false
  | fuel + 1, ('[', true) :: rest, cs =>
    match setItems rest, cs with
    | some (items, after), c :: more =>
      (match items with
        | '!' :: items => !inSet c items
        | items => inSet c items) && matchesUpTo fuel after more
    | some _, [] => false
    | none, c :: more => c = '[' && matchesUpTo fuel rest more
    | none, [] => false
  | fuel + 1, (p, _) :: rest, cs =>
    match cs with
    | c :: more => p = c && matchesUpTo fuel rest more
    | [] => false

/-- A pattern matches the whole of a text. -/
def matchesPattern (pattern : List Mark) (cs : List Char) : Bool :=
  matchesUpTo ((pattern.length + 1) * (cs.length + 1) + 1) pattern cs

/-- A pattern may match more than its own text. -/
def isActive (pattern : List Mark) : Bool :=
  pattern.any fun m => m.2 && (m.1 = '*' || m.1 = '?' || m.1 = '[')

/-! ## Basic regular expressions -/

/-- A regular expression at the head of a text: characters, dots, stars and an end mark. -/
def regexHere : Nat → List Char → List Char → Bool
  | 0, _, _ => false
  | _, [], _ => true
  | _, ['$'], cs => cs.isEmpty
  | fuel + 1, p :: rest, cs =>
    let (single, rest) : (Char → Bool) × List Char := match p, rest with
      | '\\', q :: rest => ((· = q), rest)
      | '.', rest => ((fun _ => true), rest)
      | '[', rest =>
        let body := rest.takeWhile (· ≠ ']')
        let after := (rest.dropWhile (· ≠ ']')).drop 1
        match body with
        | '^' :: items => ((fun c => !inSet c items), after)
        | items => ((fun c => inSet c items), after)
      | p, rest => ((· = p), rest)
    match rest with
    | '*' :: after =>
      regexHere fuel after cs ||
        match cs with
        | c :: more => single c && regexHere fuel (p :: rest) more
        | [] => false
    | rest =>
      match cs with
      | c :: more => single c && regexHere fuel rest more
      | [] => false

/-- A regular expression occurs in a line. -/
def regexOccurs (pattern : List Char) (line : List Char) : Bool :=
  let fuel := (pattern.length + 1) * (line.length + 1) + 1
  match pattern with
  | '^' :: rest => regexHere fuel rest line
  | _ => (List.range (line.length + 1)).any fun i => regexHere fuel pattern (line.drop i)

end DeployWatch.Shell
