/-
# Commands of shell scripts

Reads tokens into commands.  A word without quotes that is one of the reserved words counts
as such where a command may begin; everywhere else it is an argument.
-/

import DeployWatch.Shell.Lexer

namespace DeployWatch.Shell

/-- Tokens with their lines. -/
abbrev Tokens := List (Nat × Token)

/-- The text of a word that is free of quotes and expansions. -/
def plainText? : Word → Option String
  | [.text s] => some s
  | _ => none

/-- The reserved word at the head of tokens. -/
def reserved? : Tokens → Option String
  | (_, .word w) :: _ => plainText? w
  | _ => none

/-- Drops a reserved word. -/
def expectWord (text : String) : Tokens → Option Tokens
  | (_, .word w) :: rest => if plainText? w = some text then some rest else none
  | _ => none

/-- Drops an operator. -/
def expectOperator (text : String) : Tokens → Option Tokens
  | (_, .operator op) :: rest => if op = text then some rest else none
  | _ => none

/-- Drops line ends. -/
def skipNewlines (ts : Tokens) : Tokens :=
  ts.dropWhile fun t => t.2 == .operator "\n"

/-- Drops separators of commands. -/
def skipSeparators (ts : Tokens) : Tokens :=
  ts.dropWhile fun t => t.2 == .operator "\n" || t.2 == .operator ";"

/-- Words that end a list of commands. -/
def closingWords : List String := ["then", "else", "elif", "fi", "do", "done", "esac", "\x7d"]

/-- A list of commands ends here. -/
def atListEnd (ts : Tokens) : Bool :=
  match ts with
  | [] => true
  | (_, .operator op) :: _ => op = ")" || op = ";;"
  | (_, .word w) :: _ => (plainText? w).any closingWords.contains
  | _ => false

/-- Operators of redirections. -/
def isRedirection (op : String) : Bool := ["<", ">", ">>", ">&", "<&", ">|"].contains op

/-- The redirection of an operator to a word. -/
def redirection (descriptor : Option Nat) (op : String) (w : Word) : Redirection :=
  let reads := op = "<" || op = "<&"
  ⟨descriptor.getD (if reads then 0 else 1),
    if op = "<" then .readFrom w
    else if op = ">>" then .appendTo w
    else if op = ">&" || op = "<&" then .copyOf w
    else .writeTo w⟩

/-- Redirections at the head of tokens, at most `fuel` of them. -/
def parseRedirections : Nat → Tokens → List Redirection × Tokens
  | 0, ts => ([], ts)
  | fuel + 1, ts =>
    match ts with
    | (_, .descriptor n) :: (_, .operator op) :: (_, .word w) :: rest =>
      if isRedirection op then
        let (more, rest) := parseRedirections fuel rest
        (redirection (some n) op w :: more, rest)
      else ([], ts)
    | (_, .operator op) :: (_, .word w) :: rest =>
      if isRedirection op then
        let (more, rest) := parseRedirections fuel rest
        (redirection none op w :: more, rest)
      else ([], ts)
    | _ => ([], ts)

/-- An assignment at the head of a word. -/
def assignment? : Word → Option (String × Word)
  | .text s :: rest =>
    let name := s.toList.takeWhile isNameChar
    match s.toList.drop name.length, name with
    | '=' :: value, c :: _ =>
      if isNameStart c then
        some (String.ofList name,
          (if value.isEmpty then [] else [.text (String.ofList value)]) ++ rest)
      else none
    | _, _ => none
  | _ => none

/-- The words and redirections of a simple command, at most `fuel` of them. -/
def parseWords : Nat → Tokens → List Word × List Redirection × Tokens
  | 0, ts => ([], [], ts)
  | fuel + 1, ts =>
    match ts with
    | (_, .word w) :: rest =>
      let (words, redirections, rest) := parseWords fuel rest
      (w :: words, redirections, rest)
    | _ =>
      match parseRedirections 1 ts with
      | ([], _) => ([], [], ts)
      | (r, rest) =>
        let (words, redirections, rest) := parseWords fuel rest
        (words, r ++ redirections, rest)

/-- The assignments before the first word that is none. -/
def splitAssignments : List Word → List (String × Word) × List Word
  | w :: words =>
    match assignment? w with
    | some a =>
      let (more, words) := splitAssignments words
      (a :: more, words)
    | none => ([], w :: words)
  | [] => ([], [])

/-- The line of the first token. -/
def lineOf : Tokens → Nat
  | (line, _) :: _ => line
  | [] => 1

/-- The words up to the end of a line or a list. -/
def takeWords : Tokens → List Word × Tokens
  | (_, .word w) :: rest =>
    let (words, rest) := takeWords rest
    (w :: words, rest)
  | ts => ([], ts)

/-- The patterns of a case, separated by bars, at most `fuel` of them. -/
def parsePatterns : Nat → Tokens → Option (List Word × Tokens)
  | 0, _ => none
  | fuel + 1, (_, .word w) :: rest =>
    match rest with
    | (_, .operator "|") :: rest => (parsePatterns fuel rest).map fun r => (w :: r.1, r.2)
    | (_, .operator ")") :: rest => some ([w], rest)
    | _ => none
  | _, _ => none

mutual

/-- Commands up to the end of a list. -/
def parseList : Nat → Tokens → Option (Script × Tokens)
  | 0, _ => none
  | fuel + 1, ts =>
    let ts := skipSeparators ts
    if atListEnd ts then some (.nothing, ts)
    else do
      let (first, rest) ← parseAndOr fuel ts
      let rest := match rest with
        | (_, .operator "&") :: rest => rest
        | rest => rest
      let (more, rest) ← parseList fuel rest
      some (match more with
        | .nothing => first
        | more => .sequence first more, rest)

/-- Pipelines joined by `&&` and `||`. -/
def parseAndOr : Nat → Tokens → Option (Script × Tokens)
  | 0, _ => none
  | fuel + 1, ts => do
    let (first, rest) ← parsePipeline fuel ts
    parseAndOrAfter fuel first rest

/-- What follows the first pipeline of such a chain. -/
def parseAndOrAfter : Nat → Script → Tokens → Option (Script × Tokens)
  | 0, _, _ => none
  | fuel + 1, first, ts =>
    match ts with
    | (_, .operator "&&") :: rest => do
      let (second, rest) ← parsePipeline fuel (skipNewlines rest)
      parseAndOrAfter fuel (.andThen first second) rest
    | (_, .operator "||") :: rest => do
      let (second, rest) ← parsePipeline fuel (skipNewlines rest)
      parseAndOrAfter fuel (.orElse first second) rest
    | ts => some (first, ts)

/-- Commands joined by bars, perhaps negated. -/
def parsePipeline : Nat → Tokens → Option (Script × Tokens)
  | 0, _ => none
  | fuel + 1, ts =>
    if reserved? ts = some "!" then do
      let (body, rest) ← parsePipeline fuel (ts.drop 1)
      some (.negated body, rest)
    else do
      let (left, rest) ← parseCommand fuel ts
      match rest with
      | (_, .operator "|") :: rest => do
        let (right, rest) ← parsePipeline fuel (skipNewlines rest)
        some (.pipe left right, rest)
      | rest => some (left, rest)

/-- One command with its redirections. -/
def parseCommand : Nat → Tokens → Option (Script × Tokens)
  | 0, _ => none
  | fuel + 1, ts =>
    let redirect (body : Script) (rest : Tokens) : Script × Tokens :=
      match parseRedirections rest.length rest with
      | ([], rest) => (body, rest)
      | (redirections, rest) => (.redirected body redirections, rest)
    match ts, reserved? ts with
    | (_, .operator "(") :: rest, _ => do
      let (body, rest) ← parseList fuel rest
      some (redirect (.subshell body) (← expectOperator ")" rest))
    | _, some "\x7b" => do
      let (body, rest) ← parseList fuel (ts.drop 1)
      some (redirect body (← expectWord "\x7d" rest))
    | _, some "if" => do
      let (body, rest) ← parseIf fuel (ts.drop 1)
      some (redirect body rest)
    | _, some "while" => do
      let (condition, rest) ← parseList fuel (ts.drop 1)
      let (body, rest) ← parseList fuel (← expectWord "do" rest)
      some (redirect (.loop false condition body) (← expectWord "done" rest))
    | _, some "until" => do
      let (condition, rest) ← parseList fuel (ts.drop 1)
      let (body, rest) ← parseList fuel (← expectWord "do" rest)
      some (redirect (.loop true condition body) (← expectWord "done" rest))
    | _, some "for" =>
      match ts with
      | _ :: (_, .word w) :: rest => do
        let name ← plainText? w
        let rest := skipNewlines rest
        let (words, rest) := if reserved? rest = some "in" then
            let (words, rest) := takeWords (rest.drop 1)
            (some words, rest)
          else (none, rest)
        let (body, rest) ← parseList fuel (← expectWord "do" (skipSeparators rest))
        some (redirect (.each name words body) (← expectWord "done" rest))
      | _ => none
    | _, some "case" =>
      match ts with
      | _ :: (_, .word subject) :: rest => do
        let rest ← expectWord "in" (skipNewlines rest)
        let (cases, rest) ← parseCases fuel rest
        some (redirect (.choose subject cases) rest)
      | _ => none
    | _, text? =>
      if text?.any closingWords.contains then none
      else match ts with
        | (_, .word name) :: (_, .operator "(") :: (_, .operator ")") :: rest => do
          let (body, rest) ← parseCommand fuel (skipNewlines rest)
          some (.define (← plainText? name) body, rest)
        | _ =>
          let (words, redirections, rest) := parseWords ts.length ts
          if words.isEmpty && redirections.isEmpty then none
          else
            let (assignments, words) := splitAssignments words
            some (.simple (lineOf ts) assignments words redirections, rest)

/-- A conditional after its opening word. -/
def parseIf : Nat → Tokens → Option (Script × Tokens)
  | 0, _ => none
  | fuel + 1, ts => do
    let (condition, rest) ← parseList fuel ts
    let (yes, rest) ← parseList fuel (← expectWord "then" rest)
    match reserved? rest with
    | some "elif" => do
      let (no, rest) ← parseIf fuel (rest.drop 1)
      some (.branch condition yes no, rest)
    | some "else" => do
      let (no, rest) ← parseList fuel (rest.drop 1)
      some (.branch condition yes no, ← expectWord "fi" rest)
    | _ => some (.branch condition yes .nothing, ← expectWord "fi" rest)

/-- The cases of a choice up to its closing word. -/
def parseCases : Nat → Tokens → Option (List (List Word × Script) × Tokens)
  | 0, _ => none
  | fuel + 1, ts =>
    let ts := skipNewlines ts
    if reserved? ts = some "esac" then some ([], ts.drop 1)
    else do
      let ts := (expectOperator "(" ts).getD ts
      let (patterns, rest) ← parsePatterns ts.length ts
      let (body, rest) ← parseList fuel rest
      let rest := (expectOperator ";;" rest).getD rest
      (parseCases fuel rest).map fun r => ((patterns, body) :: r.1, r.2)

end

/-- The commands of a script, or nothing if it is malformed. -/
def parse? (source : List Char) : Option Script := do
  let ts ← tokens? source
  match ← parseList (8 * ts.length + 8) ts with
  | (script, []) => some script
  | _ => none

end DeployWatch.Shell
