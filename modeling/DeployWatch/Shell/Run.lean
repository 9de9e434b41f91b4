/-
# Running scripts

Runs the commands of a script one after the other, a pipeline's commands from left to right.
Every step uses up fuel, so every script comes to an end; a script that runs out of it exits
with an error.
-/

import DeployWatch.Shell.Arithmetic
import DeployWatch.Shell.Parser
import DeployWatch.Shell.Utilities

namespace DeployWatch.Shell

open DeployWatch.Text

/-! ## Expanding words -/

/-- What a word expands to, piece by piece. -/
inductive Atom where
  /-- A character, and whether it may be special in a pattern. -/
  | char (c : Char) (active : Bool)
  /-- White space from an expansion: a field ends here, if there is one. -/
  | gap
  /-- A field ends here, even an empty one. -/
  | cut
  /-- A field exists here, even if it stays empty. -/
  | mark
  deriving DecidableEq, Repr

/-- Characters that separate the fields of an expansion. -/
def isFieldSpace (c : Char) : Bool := c = ' ' || c = '\t' || c = '\n'

/-- A value without quotes: it is cut into fields, and may hold patterns. -/
def looseAtoms (value : String) : List Atom :=
  value.toList.map fun c => if isFieldSpace c then .gap else .char c true

/-- A value in quotes: it stays in one field. -/
def quotedAtoms (value : String) : List Atom := .mark :: value.toList.map (.char · false)

/-- The fields that atoms make up. -/
def fieldsOf (atoms : List Atom) : List (List Mark) :=
  let (done, open?) := atoms.foldl (fun (done, (open? : Option (List Mark))) atom =>
    match atom with
    | .char c active => (done, some ((c, active) :: open?.getD []))
    | .mark => (done, some (open?.getD []))
    | .gap => match open? with
      | some field => (field.reverse :: done, none)
      | none => (done, none)
    | .cut => ((open?.getD []).reverse :: done, none)) ([], none)
  (match open? with
    | some field => field.reverse :: done
    | none => done).reverse

/-- The arguments of a script, each a field of its own in quotes. -/
def argAtoms (inQuotes : Bool) (args : List String) : List Atom :=
  let atoms := args.map fun a => if inQuotes then quotedAtoms a else looseAtoms a
  (atoms.intersperse [if inQuotes then .cut else .gap]).flatten

/-- The value of a parameter, if it is set. -/
def parameterValue? (s : Session) (name : String) : Option String :=
  match name with
  | "@" => some (String.intercalate " " s.args)
  | "*" => some (String.intercalate " " s.args)
  | "#" => some (Decimal.text s.args.length)
  | "?" => some (Decimal.text s.status)
  | "$" => some (Decimal.text Session.processId)
  | "-" => some ""
  | "!" => none
  | "0" => some s.name
  | _ =>
    if name.toList.all Char.isDigit then s.args[Decimal.value name.toList - 1]?
    else s.vars.lookup name

/-- Pieces of a word in which nothing ends the word. -/
def looseWord (source : String) : Word :=
  let rec scan : Nat → List Char → Word
    | 0, _ => []
    | fuel + 1, cs =>
      match word? (cs.length + 1) cs with
      | some (w, c :: rest) => w ++ .text (String.singleton c) :: scan fuel rest
      | some (w, []) => w
      | none => [.text (String.ofList cs)]
  joinText (scan (source.length + 1) source.toList)

/-- All ways to cut a text in two, the shortest first part first. -/
def cuts (cs : List Char) : List (List Char × List Char) :=
  (List.range (cs.length + 1)).map fun i => (cs.take i, cs.drop i)

/-- Runs the source of a substitution, and gives what it printed. -/
abbrev Substitute := String → Session → Session × String

/-- Expands one piece of a word, whose modifiers may nest `depth` deep.  With `splits`,
values without quotes are cut into fields. -/
def expandPart (substitute : Substitute) (splits : Bool) :
    Nat → Part → Session → Session × List Atom
  | 0, _, s => (s, [])
  | depth + 1, part, s =>
    let atomsOf (inQuotes : Bool) (value : String) : List Atom :=
      if inQuotes then quotedAtoms value
      else if splits then looseAtoms value
      else value.toList.map (.char · true)
    let expandAll (source : String) (s : Session) : Session × List Atom :=
      (looseWord source).foldl (fun (s, atoms) part =>
        let (s, more) := expandPart substitute splits depth part s
        (s, atoms ++ more)) (s, [])
    let isMissing (orEmpty : Bool) (value? : Option String) : Bool :=
      match value? with
      | none => true
      | some v => orEmpty && v.isEmpty
    match part with
    | .text content => (s, content.toList.map (.char · true))
    | .quoted content => (s, quotedAtoms content)
    | .arithmetic source inQuotes =>
      let (s, atoms) := expandAll source s
      let text := String.ofList (atoms.filterMap fun a => match a with
        | .char c _ => some c
        | .gap => some ' '
        | _ => none)
      match arithmetic? s.getVar text with
      | some value => (s, atomsOf inQuotes (Decimal.signedText value))
      | none => (s.shellComplaint "arithmetic expression: expecting primary", [])
    | .substitution source inQuotes =>
      let (s, output) := substitute source s
      (s, atomsOf inQuotes output)
    | .parameter name modifier inQuotes =>
      let value? := parameterValue? s name
      match modifier with
      | .plain =>
        if name = "@" && splits then (s, argAtoms inQuotes s.args)
        else if name = "*" && splits && !inQuotes then (s, argAtoms false s.args)
        else (s, atomsOf inQuotes (value?.getD ""))
      | .default orEmpty word =>
        if isMissing orEmpty value? then expandAll word s
        else (s, atomsOf inQuotes (value?.getD ""))
      | .alternative orEmpty word =>
        if isMissing orEmpty value? then (s, []) else expandAll word s
      | .count => (s, atomsOf inQuotes (Decimal.text (value?.getD "").length))
      | .dropSuffix longest pattern =>
        let (s, atoms) := expandAll pattern s
        let marks := (fieldsOf (atoms.filter (· ≠ .gap))).flatten
        let ways := cuts (value?.getD "").toList
        let way := (if longest then ways else ways.reverse).find?
          fun w => matchesPattern marks w.2
        (s, atomsOf inQuotes (match way with
          | some w => String.ofList w.1
          | none => value?.getD ""))
      | .dropStart longest pattern =>
        let (s, atoms) := expandAll pattern s
        let marks := (fieldsOf (atoms.filter (· ≠ .gap))).flatten
        let ways := cuts (value?.getD "").toList
        let way := (if longest then ways.reverse else ways).find?
          fun w => matchesPattern marks w.1
        (s, atomsOf inQuotes (match way with
          | some w => String.ofList w.2
          | none => value?.getD ""))

/-- How deep modifiers may nest. -/
def modifierDepth : Nat := 8

/-- Expands the pieces of a word. -/
def expandParts (substitute : Substitute) (splits : Bool) (w : Word) (s : Session) :
    Session × List Atom :=
  w.foldl (fun (s, atoms) part =>
    let (s, more) := expandPart substitute splits modifierDepth part s
    (s, atoms ++ more)) (s, [])

/-- A pattern at its slashes. -/
def segments : List Mark → List (List Mark)
  | [] => [[]]
  | m :: rest =>
    if m.1 = '/' then [] :: segments rest
    else match segments rest with
      | [] => [[m]]
      | segment :: more => (m :: segment) :: more

/-- The paths that a pattern stands for, behind a path already found. -/
def matchPaths (s : Session) : List (List Mark) → String → List String
  | [], found => [found]
  | segment :: rest, found =>
    let behind (name : String) := found ++ name ++ (if rest.isEmpty then "" else "/")
    if isActive segment then
      let place? : Except FileError Location :=
        if found.isEmpty then .ok s.current else s.files.locate s.current ⟨found⟩
      match place? with
      | .error _ => []
      | .ok place =>
        let hidden := (segment.head?.map (·.1)) = some '.'
        let names := (FileTree.sortNames (s.files.children place)).filter fun n =>
          (hidden || n.toList.head? ≠ some '.') && matchesPattern segment n.toList
        names.flatMap fun n =>
          if rest.isEmpty || s.files.isDirectoryPath s.current ⟨found ++ n⟩
          then matchPaths s rest (behind n) else []
    else matchPaths s rest (behind (String.ofList (plain segment)))

/-- The arguments that a field stands for: the files that match it, if any do. -/
def resolveField (s : Session) (field : List Mark) : List String :=
  let text := String.ofList (plain field)
  if isActive field then
    match (matchPaths s (segments field) "").filter fun p => s.files.existsAt s.current ⟨p⟩ with
    | [] => [text]
    | paths => paths
  else [text]

/-- The arguments that words stand for. -/
def expandWords (substitute : Substitute) (words : List Word) (s : Session) :
    Session × List String :=
  words.foldl (fun (s, args) w =>
    let (s, atoms) := expandParts substitute true w s
    (s, args ++ (fieldsOf atoms).flatMap (resolveField s))) (s, [])

/-- The characters that a word stands for, as a pattern. -/
def expandPattern (substitute : Substitute) (w : Word) (s : Session) : Session × List Mark :=
  let (s, atoms) := expandParts substitute false w s
  (s, atoms.filterMap fun a => match a with
    | .char c active => some (c, active)
    | _ => none)

/-- The text that a word stands for where only one is wanted. -/
def expandText (substitute : Substitute) (w : Word) (s : Session) : Session × String :=
  let (s, marks) := expandPattern substitute w s
  (s, String.ofList (plain marks))

/-! ## Redirections -/

/-- Connects a descriptor as a redirection says, or complains. -/
def redirect (substitute : Substitute) (s : Session) (r : Redirection) : Session × Bool :=
  let openForWriting (keep : Bool) (s : Session) (name : String) : Session × Bool :=
    if name = "/dev/null" then (s.connect r.descriptor .nowhere, true)
    else if name = "/dev/stderr" then
      (s.connect r.descriptor ((s.outlets.lookup 2).getD .nowhere), true)
    else if name = "/dev/stdout" then
      (s.connect r.descriptor ((s.outlets.lookup 1).getD .nowhere), true)
    else match s.files.locateForWriting s.current ⟨name⟩ with
      | .error e =>
        (s.shellComplaint ("cannot create " ++ name ++ ": " ++ (match e with
          | .notFound => "Directory nonexistent"
          | e => refusalText e)), false)
      | .ok place =>
        let content := match keep, s.files.get? place with
          | true, some (.file content) => content
          | _, _ => []
        ({ s with files := s.files.put place (.file content) }.connect r.descriptor (.file place),
          true)
  match r.target with
  | .writeTo w =>
    let (s, name) := expandText substitute w s
    openForWriting false s name
  | .appendTo w =>
    let (s, name) := expandText substitute w s
    openForWriting true s name
  | .readFrom w =>
    let (s, name) := expandText substitute w s
    if name = "/dev/null" then ({ s with input := [] }, true)
    else match s.files.contentOf s.current ⟨name⟩ with
      | .ok input => ({ s with input }, true)
      | .error e =>
        (s.shellComplaint ("cannot open " ++ name ++ ": " ++ (match e with
          | .notFound => "No such file"
          | e => refusalText e)), false)
  | .copyOf w =>
    let (s, name) := expandText substitute w s
    if name = "-" then (s.connect r.descriptor .nowhere, true)
    else match s.outlets.lookup (Decimal.value (name.toList.filter Char.isDigit)) with
      | some outlet => (s.connect r.descriptor outlet, true)
      | none => (s.shellComplaint (name ++ ": Bad file descriptor"), false)

/-- Connects descriptors until one cannot be connected. -/
def redirectAll (substitute : Substitute) (s : Session) : List Redirection → Session × Bool
  | [] => (s, true)
  | r :: rest =>
    match redirect substitute s r with
    | (s, true) => redirectAll substitute s rest
    | failed => failed

/-- The state with the descriptors and the input of another one. -/
def Session.restoreOutlets (s before : Session) : Session :=
  { s with outlets := before.outlets, input := before.input }

/-! ## Commands of the shell itself -/

/-- The signal of a name or number. -/
def signalOf (text : String) : Option Nat :=
  let cs := text.toList
  if !cs.isEmpty && cs.all Char.isDigit then some (Decimal.value cs)
  else
    let bare := if "SIG".toList.isPrefixOf cs then String.ofList (cs.drop 3) else text
    [("HUP", 1), ("INT", 2), ("QUIT", 3), ("ILL", 4), ("ABRT", 6), ("BUS", 7), ("FPE", 8),
      ("KILL", 9), ("USR1", 10), ("SEGV", 11), ("USR2", 12), ("PIPE", 13), ("ALRM", 14),
      ("TERM", 15)].lookup bare

/-- Signals that leave a process alone unless it asks for them. -/
def isIgnoredSignal (signal : Nat) : Bool := [0, 17, 18, 23, 28].contains signal

/-- Sends a signal; a shell can only hit itself here. -/
def kill (s : Session) (args : List String) : Session × Flow :=
  let (signal?, targets) : Option Nat × List String := match args with
    | "-s" :: name :: rest => (signalOf name, rest)
    | arg :: rest => match arg.toList with
      | '-' :: name => (signalOf (String.ofList name), rest)
      | _ => (some 15, arg :: rest)
    | [] => (none, [])
  match signal? with
  | none => (s.withStatus 2, .proceed)
  | some signal =>
    if targets.contains (Decimal.text Session.processId) then
      if isIgnoredSignal signal then (s.withStatus 0, .proceed) else (s, .killed signal)
    else ((s.shellComplaint "kill: No such process").withStatus 1, .proceed)

/-- Ends the shell, or what `flow` says, with the code of an argument; one that is no number
ends the shell. -/
def finish (command : String) (flow : Nat → Flow) (s : Session) (args : List String) :
    Session × Flow :=
  match args with
  | text :: _ =>
    if !text.isEmpty && text.toList.all Char.isDigit then
      let code := Decimal.value text.toList % 256
      (s.withStatus code, flow code)
    else (s.shellComplaint (command ++ ": Illegal number: " ++ text), .leave 2)
  | [] => (s, flow s.status)

/-- Says what is run when signals arrive. -/
def setTraps (s : Session) (args : List String) : Session :=
  let numberOf (name : String) := if name = "EXIT" then some 0 else signalOf name
  match args with
  | [] => s
  | action :: names =>
    let signals := names.filterMap numberOf
    let kept := s.traps.filter fun t => !signals.contains t.1
    { s with traps := if action = "-" then kept else signals.map (·, action) ++ kept }

/-- Sets or clears the options of the shell that a run depends on. -/
def setOptions (s : Session) (arg : String) : Session :=
  if arg.toList.contains 'e' then { s with leavesOnFailure := arg.toList.head? = some '-' } else s

/-- Sets variables to the fields of a line; the last one takes the rest. -/
def assignFields (s : Session) : List String → List Char → Session
  | [], _ => s
  | [name], cs =>
    let cs := cs.dropWhile isFieldSpace
    s.setVar name (String.ofList (cs.reverse.dropWhile isFieldSpace).reverse)
  | name :: names, cs =>
    let cs := cs.dropWhile isFieldSpace
    let isText c := !isFieldSpace c
    assignFields (s.setVar name (String.ofList (cs.takeWhile isText))) names (cs.dropWhile isText)

/-- Reads a line into variables. -/
def readLine (s : Session) (args : List String) : Session × Nat :=
  let (options, names) := splitOptions args
  let line := s.input.takeWhile (· ≠ Lines.newline)
  let rest := s.input.drop line.length
  let cs := Utf8.decode line
  let cs := if options.contains 'r' then cs else cs.filter (· ≠ '\\')
  (assignFields { s with input := rest.drop 1 } names cs, if rest.isEmpty then 1 else 0)

/-- An argument of the form `name=value`. -/
def binding? (arg : String) : Option (String × String) :=
  let name := arg.toList.takeWhile (· ≠ '=')
  match arg.toList.drop name.length with
  | _ :: value => some (String.ofList name, String.ofList value)
  | [] => none

/-- Commands that change the shell itself. -/
def builtin? (name : String) : Option (Session → List String → Session × Flow) :=
  let count (args : List String) : Nat :=
    max 1 ((args.head?.map fun a => Decimal.value a.toList).getD 1)
  match name with
  | "exit" => some (finish name .leave)
  | "return" => some (finish name fun _ => .returned)
  | "break" => some fun s args => (s, .breakLoop (count args))
  | "continue" => some fun s args => (s, .continueLoop (count args))
  | "kill" => some kill
  | "cd" => some fun s args =>
    let target := (args.filter (· ≠ "--")).head?.getD (s.getVar "HOME")
    match s.files.locate s.current ⟨target⟩ with
    | .ok place =>
      if s.files.isDirectory place then ({ s with current := place, status := 0 }, .proceed)
      else (s.shellComplaint ("cd: can't cd to " ++ target) |>.withStatus 2, .proceed)
    | .error _ => (s.shellComplaint ("cd: can't cd to " ++ target) |>.withStatus 2, .proceed)
  | "shift" => some fun s args =>
    if s.args.length < count args then (s.shellComplaint "shift: can't shift that many", .leave 2)
    else ({ s with args := s.args.drop (count args), status := 0 }, .proceed)
  | "set" => some fun s args => match args with
    | "--" :: rest => ({ s with args := rest, status := 0 }, .proceed)
    | arg :: rest =>
      if arg.toList.head? = some '-' || arg.toList.head? = some '+'
      then ((setOptions s arg).withStatus 0, .proceed)
      else ({ s with args := arg :: rest, status := 0 }, .proceed)
    | [] => (s.withStatus 0, .proceed)
  | "export" => some fun s args => ((args.filterMap binding?).foldl
      (fun (s : Session) b => s.setVar b.1 b.2) (s.withStatus 0), .proceed)
  | "readonly" => some fun s args => ((args.filterMap binding?).foldl
      (fun (s : Session) b => s.setVar b.1 b.2) (s.withStatus 0), .proceed)
  | "local" => some fun s args => ((args.filterMap binding?).foldl
      (fun (s : Session) b => s.setVar b.1 b.2) (s.withStatus 0), .proceed)
  | "unset" => some fun s args => (args.foldl Session.unsetVar (s.withStatus 0), .proceed)
  | "read" => some fun s args =>
    let (s, code) := readLine s args
    (s.withStatus code, .proceed)
  | "trap" => some fun s args => ((setTraps s args).withStatus 0, .proceed)
  | "wait" => some fun s _ => (s.withStatus 0, .proceed)
  | "umask" => some fun s _ => (s.withStatus 0, .proceed)
  | _ => none

/-! ## Running -/

/-- The state in which a shell started by this one runs a script of its own. -/
def freshChild (s : Session) (name : String) (args : List String) : Session :=
  { s with
    name, args, functions := [], traps := [], leavesOnFailure := false, isCondition := false }

/-- The exit code of a shell whose script ended in a certain way. -/
def endCode (s : Session) : Flow → Nat
  | .leave code => code
  | .killed signal => 128 + signal
  | _ => s.status

/-- Leaves after a command that failed, if the shell is to do so and nothing looks at the
status. -/
def settle : Session × Flow → Session × Flow
  | (s, .proceed) =>
    if s.leavesOnFailure && !s.isCondition && s.status ≠ 0 then (s, .leave s.status)
    else (s, .proceed)
  | ended => ended

/-- Runs a command whose status is looked at. -/
def asCondition (body : Session → Session × Flow) (s : Session) : Session × Flow :=
  let (t, flow) := body { s with isCondition := true }
  ({ t with isCondition := s.isCondition }, flow)

/-- What a command beside the shell passes on to it: only a signal. -/
def childFlow : Flow → Flow
  | .killed signal => .killed signal
  | _ => .proceed

mutual

/-- Runs a script. -/
def run : Nat → Script → Session → Session × Flow
  | 0, _, s => (s, .leave 2)
  | fuel + 1, script, s =>
    match script with
    | .nothing => (s, .proceed)
    | .sequence first second =>
      match run fuel first s with
      | (s, .proceed) => run fuel second s
      | ended => ended
    | .andThen first second =>
      match asCondition (run fuel first) s with
      | (s, .proceed) => if s.status = 0 then run fuel second s else (s, .proceed)
      | ended => ended
    | .orElse first second =>
      match asCondition (run fuel first) s with
      | (s, .proceed) => if s.status = 0 then (s, .proceed) else run fuel second s
      | ended => ended
    | .negated body =>
      match asCondition (run fuel body) s with
      | (s, .proceed) => (s.withStatus (if s.status = 0 then 1 else 0), .proceed)
      | ended => ended
    | .branch condition yes no =>
      match asCondition (run fuel condition) s with
      | (s, .proceed) =>
        if s.status = 0 then run fuel yes s else run fuel no (s.withStatus 0)
      | ended => ended
    | .loop untilTrue condition body =>
      match asCondition (run fuel condition) s with
      | (t, .proceed) =>
        if (t.status = 0) = untilTrue then (t.withStatus 0, .proceed)
        else match run fuel body t with
          | (t, .proceed) => run fuel (.loop untilTrue condition body) t
          | (t, .continueLoop (n + 2)) => (t, .continueLoop (n + 1))
          | (t, .continueLoop _) => run fuel (.loop untilTrue condition body) t
          | (t, .breakLoop (n + 2)) => (t, .breakLoop (n + 1))
          | (t, .breakLoop _) => (t.withStatus 0, .proceed)
          | ended => ended
      | ended => ended
    | .each name words body =>
      let (s, values) := match words with
        | none => (s, s.args)
        | some words => expandWords (capture fuel) words s
      runEach fuel name body values (s.withStatus 0)
    | .choose subject cases =>
      let (s, text) := expandText (capture fuel) subject s
      runCases fuel text.toList cases (s.withStatus 0)
    | .subshell body =>
      let (t, flow) := run fuel body s
      settle ((s.afterChild t).withStatus (endCode t flow), childFlow flow)
    | .pipe left right =>
      let (t, index) := s.openBuffer
      let (t, flow) := run fuel left (t.connect 1 (.buffer index))
      match childFlow flow with
      | .killed signal => (s.afterChild t, .killed signal)
      | _ =>
        let piped := { s.afterChild t with input := t.bufferContent index }
        let (t, flow) := run fuel right piped
        settle ((s.afterChild t).withStatus (endCode t flow), childFlow flow)
    | .redirected body redirections =>
      match redirectAll (capture fuel) s redirections with
      | (t, true) =>
        let (t, flow) := run fuel body t
        (t.restoreOutlets s, flow)
      | (t, false) => ((t.restoreOutlets s).withStatus 2, .proceed)
    | .define name body =>
      ({ s with functions := (name, body) :: s.functions, status := 0 }, .proceed)
    | .simple line assignments words redirections =>
      let s := { s with line }
      let (s, args) := expandWords (capture fuel) words s
      let values := assignments.foldl (fun (s, vars) a =>
        let (s, value) := expandText (capture fuel) a.2 s
        (s, vars ++ [(a.1, value)])) (s, ([] : List (String × String)))
      let (s, vars) := values
      let assign (s : Session) := vars.foldl (fun (s : Session) v => s.setVar v.1 v.2) s
      match redirectAll (capture fuel) s redirections with
      | (t, false) => settle ((t.restoreOutlets s).withStatus 2, .proceed)
      | (t, true) =>
        match args with
        | [] =>
          let changed := assign (t.restoreOutlets s)
          settle (if words.isEmpty && assignments.all fun a => a.2.all fun p => match p with
              | .substitution .. => false
              | _ => true
            then changed.withStatus 0 else changed, .proceed)
        | "exec" :: [] => (assign t, .proceed)
        | program :: args =>
          let (u, flow) := runProgram fuel program args (assign t)
          let u := vars.foldl (fun (u : Session) v =>
            match s.vars.lookup v.1 with
            | some old => u.setVar v.1 old
            | none => u.unsetVar v.1) u
          let input := if redirections.any (·.descriptor = 0) then s.input else u.input
          settle ({ u with outlets := s.outlets, input }, flow)

/-- Runs a program, a function or a command of the shell. -/
def runProgram : Nat → String → List String → Session → Session × Flow
  | 0, _, _, s => (s, .leave 2)
  | fuel + 1, program, args, s =>
    match s.functions.lookup program with
    | some body =>
      let (t, flow) := run fuel body { s with args }
      let t := { t with args := s.args }
      (t, match flow with
        | .returned => .proceed
        | flow => flow)
    | none =>
      match builtin? program with
      | some command =>
        match command s args with
        | (t, .killed signal) =>
          match if signal = 9 then none else t.traps.lookup signal with
          | some action =>
            match runSource fuel action t with
            | (t, .proceed) => (t.withStatus 0, .proceed)
            | ended => ended
          | none => (t, .killed signal)
        | ended => ended
      | none =>
        match program, args with
        | "eval", args => runSource fuel (String.intercalate " " args) s
        | "exec", program :: args =>
          if (builtin? program).isNone && !isProgram program && !program.toList.contains '/' then
            (s.shellComplaint ("exec: " ++ program ++ ": not found"), .leave 127)
          else
            let (s, flow) := runProgram fuel program args s
            (s, .leave (endCode s flow))
        | "command", program :: args => runProgram fuel program args s
        | ".", file :: _ =>
          match s.files.contentOf s.current ⟨file⟩ with
          | .ok content => runSource fuel (String.ofList (Utf8.decode content)) s
          | .error _ => (s.shellComplaint (".: cannot open " ++ file) |>.withStatus 2, .leave 2)
        | "sh", "-c" :: source :: rest =>
          let child := freshChild s (rest.head?.getD "sh") (rest.drop 1)
          let (t, flow) := runSource fuel source child
          ((s.afterChild t).withStatus (endCode t flow), .proceed)
        | "sh", file :: rest =>
          match s.files.contentOf s.current ⟨file⟩ with
          | .ok content =>
            let child := freshChild s file rest
            let (t, flow) := runSource fuel (String.ofList (Utf8.decode content)) child
            ((s.afterChild t).withStatus (endCode t flow), .proceed)
          | .error e =>
            let t := { s with name := "sh", line := 0 }
            (((t.shellComplaint ("cannot open " ++ file ++ ": " ++ (match e with
              | .notFound => "No such file"
              | e => refusalText e))).restoreOutlets s).withStatus 2, .proceed)
        | "sh", [] => runSource fuel (String.ofList (Utf8.decode s.input)) s
        | _, _ =>
          match utility? program with
          | some tool =>
            let (s, code) := tool s args
            (s.withStatus code, .proceed)
          | none =>
            let refuse (reason : String) (code : Nat) : Session × Flow :=
              ((s.shellComplaint (program ++ ": " ++ reason)).withStatus code, .proceed)
            if program.toList.contains '/' && s.files.existsAt s.current ⟨program⟩
            then refuse "Permission denied" 126
            else refuse "not found" 127

/-- Runs the text of a script. -/
def runSource : Nat → String → Session → Session × Flow
  | 0, _, s => (s, .leave 2)
  | fuel + 1, source, s =>
    match parse? source.toList with
    | some script => run fuel script s
    | none => ((s.shellComplaint "Syntax error").withStatus 2, .leave 2)

/-- Runs the source of a substitution and takes its output, without the line ends it closes
with. -/
def capture : Nat → String → Session → Session × String
  | 0, _, s => (s, "")
  | fuel + 1, source, s =>
    let (t, index) := s.openBuffer
    let (t, flow) := runSource fuel source
      { t.connect 1 (.buffer index) with isCondition := false }
    let bytes := (t.bufferContent index).reverse.dropWhile (· = Lines.newline)
    let text := String.ofList (Utf8.decode (bytes.reverse.filter (· ≠ 0)))
    ((s.afterChild t).withStatus (endCode t flow), text)

/-- Runs the body of a loop for each value. -/
def runEach : Nat → String → Script → List String → Session → Session × Flow
  | 0, _, _, _, s => (s, .leave 2)
  | fuel + 1, name, body, values, s =>
    match values with
    | [] => (s, .proceed)
    | value :: rest =>
      match run fuel body (s.setVar name value) with
      | (s, .proceed) => runEach fuel name body rest s
      | (s, .continueLoop (n + 2)) => (s, .continueLoop (n + 1))
      | (s, .continueLoop _) => runEach fuel name body rest s
      | (s, .breakLoop (n + 2)) => (s, .breakLoop (n + 1))
      | (s, .breakLoop _) => (s.withStatus 0, .proceed)
      | ended => ended

/-- Runs the first case with a pattern that matches. -/
def runCases : Nat → List Char → List (List Word × Script) → Session → Session × Flow
  | 0, _, _, s => (s, .leave 2)
  | fuel + 1, text, cases, s =>
    match cases with
    | [] => (s, .proceed)
    | (patterns, body) :: rest =>
      let (s, hit) := patterns.foldl (fun (s, hit) w =>
        let (s, pattern) := expandPattern (capture fuel) w s
        (s, hit || matchesPattern pattern text)) (s, false)
      if hit then run fuel body s else runCases fuel text rest s

end

/-- The steps that a script may take. -/
def stepLimit : Nat := 200000

/-- Runs a script to its end, and then what it asked to be run at its end. -/
def runToEnd (source : String) (s : Session) : Session × Flow :=
  let (t, flow) := runSource stepLimit source s
  match flow, t.traps.lookup 0 with
  | .killed signal, _ => (t, .killed signal)
  | flow, some action =>
    let code := endCode t flow
    match runSource stepLimit action (t.withStatus code) with
    | (u, .leave code) => (u, .leave code)
    | (u, _) => (u, .leave code)
  | flow, none => (t, flow)

end DeployWatch.Shell
