/-
# Tokens of shell scripts

Splits a script into words, operators and line ends.  Quotes and expansions are resolved into
the pieces of words here; what is inside a substitution is kept as text.
-/

import DeployWatch.Shell.Syntax
import DeployWatch.Text.Decimal

namespace DeployWatch.Shell

open DeployWatch.Text

/-- Characters that may begin a name. -/
def isNameStart (c : Char) : Bool := c.isAlpha || c = '_'

/-- Characters of a name. -/
def isNameChar (c : Char) : Bool := c.isAlphanum || c = '_'

/-- Parameters whose name is a single special character. -/
def isSpecial (c : Char) : Bool := "@*#?-$!".toList.contains c

/-- Characters that end a word. -/
def endsWord (c : Char) : Bool := " \t\n;&|<>()".toList.contains c

/-- The text up to a closing bracket and what follows it.  Brackets may be nested `depth`
deep already, and quotes hide them. -/
def enclosed (opening closing : Char) : Nat → Nat → List Char → Option (List Char × List Char)
  | 0, _, _ => none
  | _, _, [] => none
  | fuel + 1, depth, c :: rest =>
    if c = closing then
      match depth with
      | 0 => some ([], rest)
      | depth + 1 => (enclosed opening closing fuel depth rest).map fun r => (c :: r.1, r.2)
    else if c = opening then
      (enclosed opening closing fuel (depth + 1) rest).map fun r => (c :: r.1, r.2)
    else if c = '\\' then
      match rest with
      | d :: rest => (enclosed opening closing fuel depth rest).map fun r => (c :: d :: r.1, r.2)
      | [] => none
    else if c = '\'' || c = '"' then
      let body := rest.takeWhile (· ≠ c)
      match rest.dropWhile (· ≠ c) with
      | _ :: rest =>
        (enclosed opening closing fuel depth rest).map fun r => (c :: body ++ c :: r.1, r.2)
      | [] => none
    else (enclosed opening closing fuel depth rest).map fun r => (c :: r.1, r.2)

/-- A parameter in braces, from the text between them. -/
def parameter? (source : List Char) : Option (String × Modifier) :=
  match source with
  | '#' :: c :: rest => some (String.ofList (c :: rest), .count)
  | _ =>
    let nameLength :=
      match source with
      | c :: _ => if isSpecial c then 1 else (source.takeWhile isNameChar).length
      | [] => 0
    let name := String.ofList (source.take nameLength)
    if nameLength = 0 then none
    else match source.drop nameLength with
      | [] => some (name, .plain)
      | ':' :: '-' :: w => some (name, .default true (String.ofList w))
      | '-' :: w => some (name, .default false (String.ofList w))
      | ':' :: '+' :: w => some (name, .alternative true (String.ofList w))
      | '+' :: w => some (name, .alternative false (String.ofList w))
      | '%' :: '%' :: w => some (name, .dropSuffix true (String.ofList w))
      | '%' :: w => some (name, .dropSuffix false (String.ofList w))
      | '#' :: '#' :: w => some (name, .dropStart true (String.ofList w))
      | '#' :: w => some (name, .dropStart false (String.ofList w))
      | _ => none

/-- An expansion after its dollar sign, and what follows it. -/
def expansion? (inQuotes : Bool) (cs : List Char) : Option (Part × List Char) :=
  let fuel := cs.length + 1
  match cs with
  | '(' :: '(' :: rest => do
    let (body, rest) ← enclosed '(' ')' fuel 0 rest
    match rest with
    | ')' :: rest => some (.arithmetic (String.ofList body) inQuotes, rest)
    | _ => none
  | '(' :: rest => do
    let (body, rest) ← enclosed '(' ')' fuel 0 rest
    some (.substitution (String.ofList body) inQuotes, rest)
  | '\x7b' :: rest => do
    let (body, rest) ← enclosed '\x7b' '\x7d' fuel 0 rest
    let (name, modifier) ← parameter? body
    some (.parameter name modifier inQuotes, rest)
  | c :: rest =>
    if isNameStart c then
      some (.parameter (String.ofList (cs.takeWhile isNameChar)) .plain inQuotes,
        cs.dropWhile isNameChar)
    else if c.isDigit || isSpecial c then
      some (.parameter (String.singleton c) .plain inQuotes, rest)
    else some (if inQuotes then .quoted "$" else .text "$", cs)
  | [] => some (if inQuotes then .quoted "$" else .text "$", cs)

/-- A command between back quotes, after the opening one. -/
def backQuoted? : List Char → Option (List Char × List Char)
  | [] => none
  | '\x60' :: rest => some ([], rest)
  | '\\' :: c :: rest =>
    if c = '\x60' || c = '\\' || c = '$' then (backQuoted? rest).map fun r => (c :: r.1, r.2)
    else (backQuoted? rest).map fun r => ('\\' :: c :: r.1, r.2)
  | c :: rest => (backQuoted? rest).map fun r => (c :: r.1, r.2)

/-- The pieces between double quotes, after the opening one. -/
def doubleQuoted? : Nat → List Char → Option (Word × List Char)
  | 0, _ => none
  | _, [] => none
  | fuel + 1, c :: rest =>
    if c = '"' then some ([], rest)
    else if c = '\\' then
      match rest with
      | '\n' :: rest => doubleQuoted? fuel rest
      | d :: rest =>
        let content := if "$\x60\"\\".toList.contains d then [d] else ['\\', d]
        (doubleQuoted? fuel rest).map fun r => (.quoted (String.ofList content) :: r.1, r.2)
      | [] => none
    else if c = '$' then do
      let (part, rest) ← expansion? true rest
      (doubleQuoted? fuel rest).map fun r => (part :: r.1, r.2)
    else if c = '\x60' then do
      let (body, rest) ← backQuoted? rest
      (doubleQuoted? fuel rest).map
        fun r => (.substitution (String.ofList body) true :: r.1, r.2)
    else
      (doubleQuoted? fuel rest).map fun r => (.quoted (String.singleton c) :: r.1, r.2)

/-- A word, up to a character that ends it. -/
def word? : Nat → List Char → Option (Word × List Char)
  | 0, _ => none
  | _, [] => some ([], [])
  | fuel + 1, c :: rest =>
    if endsWord c then some ([], c :: rest)
    else if c = '\'' then
      match rest.dropWhile (· ≠ '\'') with
      | _ :: after =>
        (word? fuel after).map
          fun r => (.quoted (String.ofList (rest.takeWhile (· ≠ '\''))) :: r.1, r.2)
      | [] => none
    else if c = '"' then do
      let (parts, rest) ← doubleQuoted? fuel rest
      let parts := if parts.isEmpty then [.quoted ""] else parts
      (word? fuel rest).map fun r => (parts ++ r.1, r.2)
    else if c = '\\' then
      match rest with
      | '\n' :: rest => word? fuel rest
      | d :: rest => (word? fuel rest).map fun r => (.quoted (String.singleton d) :: r.1, r.2)
      | [] => some ([.text "\\"], [])
    else if c = '$' then do
      let (part, rest) ← expansion? false rest
      (word? fuel rest).map fun r => (part :: r.1, r.2)
    else if c = '\x60' then do
      let (body, rest) ← backQuoted? rest
      (word? fuel rest).map fun r => (.substitution (String.ofList body) false :: r.1, r.2)
    else (word? fuel rest).map fun r => (.text (String.singleton c) :: r.1, r.2)

/-- Operators, the longer ones first. -/
def operators : List String :=
  ["&&", "||", ";;", ">>", ">&", "<&", ">|", "\n", ";", "&", "|", "<", ">", "(", ")"]

/-- Joins neighbouring pieces of plain text. -/
def joinText : Word → Word
  | .text a :: rest =>
    match joinText rest with
    | .text b :: more => .text (a ++ b) :: more
    | more => .text a :: more
  | part :: rest => part :: joinText rest
  | [] => []

/-- The tokens of a script with their lines, at most `fuel` of them. -/
def tokensFrom : Nat → Nat → List Char → Option (List (Nat × Token))
  | fuel, line, cs =>
    match cs.dropWhile (fun c => c = ' ' || c = '\t'), fuel with
    | [], _ => some []
    | _, 0 => none
    | '\\' :: '\n' :: rest, fuel + 1 => tokensFrom fuel (line + 1) rest
    | '#' :: rest, fuel + 1 => tokensFrom fuel line (rest.dropWhile (· ≠ '\n'))
    | cs, fuel + 1 =>
      match operators.find? fun op => op.toList.isPrefixOf cs with
      | some op => do
        let more ← tokensFrom fuel (if op = "\n" then line + 1 else line) (cs.drop op.length)
        some ((line, .operator op) :: more)
      | none => do
        let digits := cs.takeWhile Char.isDigit
        match digits.isEmpty, cs.drop digits.length with
        | false, c :: rest =>
          if c = '<' || c = '>' then
            let more ← tokensFrom fuel line (c :: rest)
            some ((line, .descriptor (Decimal.value digits)) :: more)
          else readWord fuel line cs
        | _, _ => readWord fuel line cs
where
  /-- One word and the tokens after it. -/
  readWord (fuel line : Nat) (cs : List Char) : Option (List (Nat × Token)) := do
    let (word, rest) ← word? (cs.length + 1) cs
    let lines := ((cs.take (cs.length - rest.length)).filter (· = '\n')).length
    let more ← match fuel with
      | 0 => none
      | fuel + 1 => tokensFrom fuel (line + lines) rest
    some ((line, .word (joinText word)) :: more)

/-- The tokens of a script, each with the number of its line. -/
def tokens? (source : List Char) : Option (List (Nat × Token)) :=
  tokensFrom (2 * source.length + 2) 1 source

end DeployWatch.Shell
