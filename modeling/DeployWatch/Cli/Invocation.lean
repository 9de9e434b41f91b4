/-
# Command lines

What a command line asks for.  The words are read from left to right: options of the command
that is open, the word for a command below it, or arguments.  Two hyphens alone make
everything behind them an argument.  The first word that makes no sense ends the reading, and
so does a question for help or for the version.
-/

import DeployWatch.Cli.Help
import DeployWatch.Deploy.Request

namespace DeployWatch.Cli

/-! ## What can be wrong -/

/-- Why a command line makes no sense. -/
inductive UsageFault where
  | unexpectedArgument (text : String)
  | unknownCommand (word : String)
  /-- An option got a value that it does not take. -/
  | surplusValue (value : String) (option : OptionSpec)
  /-- An option got no value, or an empty one where that is none. -/
  | missingValue (option : OptionSpec)
  | repeated (option : OptionSpec)
  | missingCommand
  | missingArguments (names : List String)
  deriving DecidableEq, Repr

/-- The complaint in words. -/
def UsageFault.message (c : CommandName) : UsageFault → String
  | unexpectedArgument text => "unexpected argument '" ++ text ++ "' found"
  | unknownCommand word => "unrecognized subcommand '" ++ word ++ "'"
  | surplusValue value option =>
    "unexpected value '" ++ value ++ "' for '" ++ option.text ++ "' found; no more were expected"
  | missingValue option => "a value is required for '" ++ option.text ++ "' but none was supplied"
  | repeated option => "the argument '" ++ option.text ++ "' cannot be used multiple times"
  | missingCommand => "'" ++ c.text ++ "' requires a subcommand but one was not provided"
  | missingArguments names =>
    "the following required arguments were not provided:"
      ++ String.join (names.map ("\n  " ++ ·))

/-- Why a command line does not lead to a command being run. -/
inductive Stop where
  /-- Help was asked for. -/
  | help (c : CommandName)
  | version
  /-- Nothing was asked for, so help is given. -/
  | idle (c : CommandName)
  | usage (c : CommandName) (fault : UsageFault)
  deriving DecidableEq, Repr

/-! ## Reading the words -/

/-- An option that was given, with its value or an empty one. -/
abbrev Occurrence := OptionSpec × String

/-- A command line that is being read. -/
structure Scan where
  /-- The command that is open. -/
  command : CommandName := .program
  /-- The options given to it, the newest first. -/
  here : List Occurrence := []
  /-- The options given to the commands above it, the newest first. -/
  above : List Occurrence := []
  arguments : List String := []
  /-- The option whose value comes next. -/
  pending : Option OptionSpec := none
  /-- Only arguments follow. -/
  onlyArguments : Bool := false
  deriving Repr

namespace Scan

/-- Ends the reading with a complaint. -/
def refuse {α : Type} (s : Scan) (fault : UsageFault) : Except Stop α :=
  .error (.usage s.command fault)

/-- No option waits for its value. -/
def requireComplete (s : Scan) : Except Stop Unit :=
  match s.pending with
  | some option => s.refuse (.missingValue option)
  | none => .ok ()

/-- Records an option. -/
def record (s : Scan) (option : OptionSpec) (value : String) : Except Stop Scan :=
  match option.kind with
  | .help => .error (.help s.command)
  | .version => .error .version
  | kind =>
    if kind.once && s.here.any (·.1 = option) then s.refuse (.repeated option)
    else if kind = .path && value.isEmpty then s.refuse (.missingValue option)
    else .ok { s with here := (option, value) :: s.here, pending := none }

/-- Reads an option with two hyphens. -/
def long (s : Scan) (name : String) (value : Option String) : Except Stop Scan := do
  match s.command.options.find? (·.long = name) with
  | none => s.refuse (.unexpectedArgument ("--" ++ name))
  | some option =>
    s.requireComplete
    match value with
    | some value =>
      if option.kind.takesValue then s.record option value
      else s.refuse (.surplusValue value option)
    | none =>
      if option.kind.takesValue then return { s with pending := some option }
      else s.record option ""

/-- Reads the letters behind one hyphen.  What follows the letter of an option with a value
is the value; an equals sign in front of it does not count. -/
def shorts (s : Scan) : List Char → Except Stop Scan
  | [] => .ok s
  | c :: rest => do
    match s.command.options.find? (·.short = some c) with
    | none => s.refuse (.unexpectedArgument (String.ofList ['-', c]))
    | some option =>
      s.requireComplete
      if option.kind.takesValue then
        match rest with
        | [] => return { s with pending := some option }
        | '=' :: value => s.record option (String.ofList value)
        | value => s.record option (String.ofList value)
      else (← s.record option "").shorts rest

/-- Reads an argument. -/
def argument (s : Scan) (text : String) : Except Stop Scan :=
  if s.arguments.length < s.command.arguments.length || s.command.arguments.any (·.repeated) then
    .ok { s with arguments := s.arguments ++ [text] }
  else if s.command.children.isEmpty || s.onlyArguments then s.refuse (.unexpectedArgument text)
  else s.refuse (.unknownCommand text)

/-- Opens a command below the open one. -/
def enter (s : Scan) (c : CommandName) : Scan :=
  { command := c, above := s.here ++ s.above }

/-- Reads one word. -/
def word (s : Scan) (text : String) : Except Stop Scan := do
  if s.onlyArguments then s.argument text
  else
    match (if s.pending.isNone then s.command.child? text else none) with
    | some child => return s.enter child
    | none =>
      match text.toList with
      | ['-', '-'] =>
        s.requireComplete
        return { s with onlyArguments := true }
      | '-' :: '-' :: rest =>
        let name := String.ofList (rest.takeWhile (· ≠ '='))
        match rest.dropWhile (· ≠ '=') with
        | _ :: value => s.long name (some (String.ofList value))
        | [] => s.long name none
      | '-' :: c :: rest => s.shorts (c :: rest)
      | _ =>
        match s.pending with
        | some option => s.record option text
        | none => s.argument text

/-- The command that words lead to, for the one who asks for help on it. -/
def helpOn (c : CommandName) : List String → Stop
  | [] => .help c
  | word :: rest =>
    match c.child? word with
    | some child => helpOn child rest
    | none => .usage c (.unknownCommand word)

/-- Reads all words. -/
def words (s : Scan) : List String → Except Stop Scan
  | [] => .ok s
  | text :: rest => do
    let next ← s.word text
    if next.command = .help then .error (helpOn s.command rest)
    else next.words rest

/-- Checks that nothing is missing. -/
def finish (s : Scan) : Except Stop Scan := do
  s.requireComplete
  if !s.command.children.isEmpty then
    if s.here.isEmpty then .error (.idle s.command) else s.refuse .missingCommand
  else
    let missing := (s.command.arguments.drop s.arguments.length).filter (·.required)
    if missing.isEmpty then return s
    else s.refuse (.missingArguments (missing.map ArgumentSpec.text))

/-- The value of an option; the one given to the innermost command counts. -/
def value? (s : Scan) (long : String) : Option String :=
  ((s.here ++ s.above).find? (·.1.long = long)).map (·.2)

/-- The values of an option, in their order. -/
def values (s : Scan) (long : String) : List String :=
  ((s.here.filter (·.1.long = long)).map (·.2)).reverse

end Scan

/-! ## What is asked for -/

/-- What the program is to do. -/
inductive Task where
  | deploy (request : DeployRequest)
  | deleteStack (stack : String) (profile : Option String)
  | followLogs (group : String) (streams : List String) (filter profile : Option String)
  | probe (endpoint : String)
  deriving DecidableEq, Repr

/-- A command line that makes sense. -/
structure Invocation where
  /-- The settings file. -/
  config : Option Path
  task : Task
  deriving DecidableEq, Repr

namespace Invocation

/-- The request to deploy or destroy in a command line. -/
def request (operation : Operation) (s : Scan) : DeployRequest where
  operation := operation
  targets := s.arguments
  profile := s.value? "profile"
  dir := ⟨(s.value? "dir").getD "."⟩
  output := (s.value? "output").map Path.mk

/-- What a command line asks for that has been read. -/
def ofScan (s : Scan) : Except Stop Invocation :=
  let config := (s.value? "config").map Path.mk
  let first := s.arguments.head?.getD ""
  match s.command with
  | .deploy => .ok ⟨config, .deploy (request .deploy s)⟩
  | .destroy => .ok ⟨config, .deploy (request .destroy s)⟩
  | .stackDelete => .ok ⟨config, .deleteStack first (s.value? "profile")⟩
  | .logs =>
    .ok ⟨config, .followLogs first (s.values "stream") (s.value? "filter") (s.value? "profile")⟩
  | .health => .ok ⟨config, .probe first⟩
  | c => .error (.idle c)

/-- What a command line asks for. -/
def read (args : List String) : Except Stop Invocation := do
  ofScan (← (← Scan.words {} args).finish)

end Invocation

end DeployWatch.Cli
