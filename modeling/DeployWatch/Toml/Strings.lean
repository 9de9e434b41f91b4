/-
# TOML strings

The four kinds of string: basic and literal, each on one line or over several.  Basic
strings have escapes; literal ones mean what they show.  `writeBasic` writes any text as a
basic string on one line, and `readBasic` reads it back.
-/

import DeployWatch.Text.Percent
import DeployWatch.Toml.Lexical

namespace DeployWatch.Toml

open DeployWatch.Text

/-- The character with so many hexadecimal digits at the head of a text as its code point. -/
def hexChar? (count : Nat) (cs : List Char) : Option Char := do
  if (cs.take count).length < count then none
  else
    let digits ← (cs.take count).mapM Percent.hexValue?
    let code := digits.foldl (fun n d => 16 * n + d) 0
    if code.isValidChar then some (Char.ofNat code) else none

/-- The character that a letter after a backslash stands for. -/
def shortEscape? : Char → Option Char
  | 'b' => some '\x08'
  | 't' => some '\t'
  | 'n' => some '\n'
  | 'f' => some '\x0c'
  | 'r' => some '\r'
  | 'e' => some '\x1b'
  | '"' => some '"'
  | '\\' => some '\\'
  | _ => none

/-- The character that an escape stands for, given what follows its backslash, and the
number of characters that wrote it. -/
def escape? : List Char → Option (Char × Nat)
  | 'x' :: rest => (hexChar? 2 rest).map (·, 3)
  | 'u' :: rest => (hexChar? 4 rest).map (·, 5)
  | 'U' :: rest => (hexChar? 8 rest).map (·, 9)
  | c :: _ => (shortEscape? c).map (·, 1)
  | [] => none

/-- The rest of a basic string on one line, after its opening quote. -/
def readBasic (cs : List Char) : Option (List Char × List Char) :=
  match cs with
  | [] => none
  | '"' :: rest => some ([], rest)
  | '\\' :: rest =>
    match escape? rest with
    | none => none
    | some (c, n) => (readBasic (rest.drop n)).map fun r => (c :: r.1, r.2)
  | c :: rest =>
    if isVisible c then (readBasic rest).map fun r => (c :: r.1, r.2) else none
termination_by cs.length
decreasing_by all_goals simp; try omega

/-- The rest of a literal string on one line, after its opening quote. -/
def readLiteral : List Char → Option (List Char × List Char)
  | [] => none
  | '\'' :: rest => some ([], rest)
  | c :: rest =>
    if isVisible c then (readLiteral rest).map fun r => (c :: r.1, r.2) else none

/-- The number of quotes at the head of a text. -/
def quoteRun (quote : Char) (cs : List Char) : Nat := (cs.takeWhile (· = quote)).length

/-- Drops the white space and line ends after a backslash that ends its line. -/
def continuation? (cs : List Char) : Option (List Char) :=
  match skipSpace cs with
  | '\n' :: rest => some (rest.dropWhile isGapChar)
  | '\r' :: '\n' :: rest => some (rest.dropWhile isGapChar)
  | _ => none
where
  /-- White space or part of a line end. -/
  isGapChar (c : Char) : Bool := isLineSpace c || c = '\n' || c = '\r'

/-- The rest of a string over several lines, after its opening quotes, reading at most
`fuel` characters.  Three quotes close it; one or two more before them belong to the text.
A line end is one newline however it is written. -/
def readMultiline (quote : Char) (escapes : Bool) :
    Nat → List Char → Option (List Char × List Char)
  | 0, _ => none
  | _, [] => none
  | fuel + 1, c :: rest =>
    if c = quote then
      let run := quoteRun quote (c :: rest)
      if run < 3 then
        (readMultiline quote escapes fuel rest).map fun r => (c :: r.1, r.2)
      else
        let kept := min run 5 - 3
        some (List.replicate kept quote, (c :: rest).drop (kept + 3))
    else if escapes && c = '\\' then
      match continuation? rest with
      | some next => readMultiline quote escapes fuel next
      | none =>
        match escape? rest with
        | none => none
        | some (e, n) =>
          (readMultiline quote escapes fuel (rest.drop n)).map fun r => (e :: r.1, r.2)
    else match c, rest with
      | '\r', '\n' :: next =>
        (readMultiline quote escapes fuel next).map fun r => ('\n' :: r.1, r.2)
      | '\n', next => (readMultiline quote escapes fuel next).map fun r => ('\n' :: r.1, r.2)
      | c, next =>
        if isVisible c then
          (readMultiline quote escapes fuel next).map fun r => (c :: r.1, r.2)
        else none

/-- Drops a line end directly after the opening quotes of a string over several lines. -/
def skipFirstNewline : List Char → List Char
  | '\n' :: rest => rest
  | '\r' :: '\n' :: rest => rest
  | rest => rest

/-- A string of any kind. -/
def readString : Scan String
  | '"' :: '"' :: '"' :: rest =>
    (readMultiline '"' true rest.length (skipFirstNewline rest)).map
      fun r => (String.ofList r.1, r.2)
  | '"' :: rest => (readBasic rest).map fun r => (String.ofList r.1, r.2)
  | '\'' :: '\'' :: '\'' :: rest =>
    (readMultiline '\'' false rest.length (skipFirstNewline rest)).map
      fun r => (String.ofList r.1, r.2)
  | '\'' :: rest => (readLiteral rest).map fun r => (String.ofList r.1, r.2)
  | _ => none

/-- A character inside a written basic string.  Characters that may not stand there are
written with eight hexadecimal digits. -/
def writeChar (c : Char) : List Char :=
  if c = '"' then ['\\', '"']
  else if c = '\\' then ['\\', '\\']
  else if isVisible c then [c]
  else ['\\', 'U'] ++ (List.range 8).map fun i =>
    Percent.hexDigit (c.toNat >>> (4 * (7 - i)) % 16)

/-- A text as a basic string on one line. -/
def writeBasic (text : List Char) : List Char := '"' :: text.flatMap writeChar ++ ['"']

end DeployWatch.Toml
