/-
# Commands

The commands of the program with their options and arguments, as one table per command.  The
table decides what the command line may contain and what the help page says.
-/

import DeployWatch.Text.Decimal

namespace DeployWatch.Cli

/-- The name of the program. -/
def programName : String := "hoist"

/-- The version of the program. -/
def version : String := "0.1.0"

/-! ## Options and arguments -/

/-- How often an option may be given, and with what value. -/
inductive OptionKind where
  /-- Without a value, once. -/
  | flag
  /-- Without a value, any number of times. -/
  | count
  /-- Asks for the help page. -/
  | help
  /-- Asks for the version. -/
  | version
  /-- With any value, once. -/
  | text
  /-- With a value that is not empty, once. -/
  | path
  /-- With any value, any number of times. -/
  | texts
  deriving DecidableEq, Repr

/-- The option comes with a value. -/
def OptionKind.takesValue : OptionKind → Bool
  | text | path | texts => true
  | _ => false

/-- The option may be given only once. -/
def OptionKind.once : OptionKind → Bool
  | flag | text | path => true
  | _ => false

/-- An option. -/
structure OptionSpec where
  /-- The name behind two hyphens. -/
  long : String
  /-- The letter behind one hyphen. -/
  short : Option Char := none
  kind : OptionKind
  /-- What the value is called. -/
  valueName : String := ""
  summary : String
  /-- The value that holds if the option is not given. -/
  standard : Option String := none
  deriving DecidableEq, Repr

/-- An argument without an option in front of it. -/
structure ArgumentSpec where
  name : String
  summary : String
  required : Bool := true
  repeated : Bool := false
  deriving DecidableEq, Repr

namespace Options

/-- How much is logged. -/
def verbose : OptionSpec where
  long := "verbose"
  short := some 'v'
  kind := .count
  summary := "Enable verbose output (-v for debug, -vv for trace, -vvv for all)"

/-- The settings file. -/
def config : OptionSpec where
  long := "config"
  short := some 'c'
  kind := .path
  valueName := "CONFIG"
  summary := "Path to configuration file"

/-- A credential profile. -/
def profile (summary : String) : OptionSpec where
  long := "profile"
  kind := .text
  valueName := "PROFILE"
  summary := summary

/-- The directory of the app. -/
def dir : OptionSpec where
  long := "dir"
  short := some 'C'
  kind := .path
  valueName := "DIR"
  summary := "Directory containing the infrastructure app"
  standard := some "."

/-- Where the deployment tool writes its output. -/
def output : OptionSpec where
  long := "output"
  kind := .path
  valueName := "OUTPUT"
  summary := "Write tool output here instead of a temporary directory; removed afterwards"

/-- The tool's output is shown. -/
def showOutput : OptionSpec where
  long := "show-output"
  kind := .flag
  summary := "Print the tool's raw output above the progress bar"

/-- A stream of a log group. -/
def stream : OptionSpec where
  long := "stream"
  kind := .texts
  valueName := "STREAMS"
  summary := "Only follow these streams (repeatable)"

/-- A pattern for log entries. -/
def filter : OptionSpec where
  long := "filter"
  kind := .text
  valueName := "FILTER"
  summary := "Provider-side filter pattern"

/-- The help page. -/
def help : OptionSpec where
  long := "help"
  short := some 'h'
  kind := .help
  summary := "Print help"

/-- The version. -/
def version : OptionSpec where
  long := "version"
  short := some 'V'
  kind := .version
  summary := "Print version"

end Options

/-! ## Commands -/

/-- The commands, the program itself among them. -/
inductive CommandName where
  | program
  | deploy
  | destroy
  | stack
  | stackDelete
  | logs
  | health
  | help
  deriving DecidableEq, Repr, Inhabited

namespace CommandName

/-- The words that lead to a command. -/
def words : CommandName → List String
  | program => [programName]
  | deploy => [programName, "deploy"]
  | destroy => [programName, "destroy"]
  | stack => [programName, "stack"]
  | stackDelete => [programName, "stack", "delete"]
  | logs => [programName, "logs"]
  | health => [programName, "health"]
  | help => [programName, "help"]

/-- The word for a command behind the command above it. -/
def word (c : CommandName) : String := c.words.getLast?.getD programName

/-- The words that lead to a command, as text. -/
def text (c : CommandName) : String := String.intercalate " " c.words

/-- What a command does. -/
def summary : CommandName → String
  | program => "Deploy cloud stacks and follow them until they settle"
  | deploy => "Create or update stacks"
  | destroy => "Tear down stacks"
  | stack => "Operate on a single stack"
  | stackDelete => "Delete a stack and wait for the deletion to finish"
  | logs => "Follow a log group until interrupted"
  | health => "Wait until a workflow service answers its health check"
  | help => "Print this message or the help of the given subcommand(s)"

/-- The commands below a command. -/
def children : CommandName → List CommandName
  | program => [deploy, destroy, stack, logs, health, help]
  | stack => [stackDelete, help]
  | _ => []

/-- The options of a command, in the order of its help page. -/
def options : CommandName → List OptionSpec
  | program => [Options.verbose, Options.config, Options.help, Options.version]
  | deploy | destroy =>
    [Options.profile "Credential profile passed to the deployment tool", Options.verbose,
      Options.config, Options.dir, Options.output, Options.showOutput, Options.help]
  | stackDelete =>
    [Options.profile "Credential profile", Options.verbose, Options.config, Options.help]
  | logs =>
    [Options.stream, Options.verbose, Options.config, Options.filter,
      Options.profile "Credential profile", Options.help]
  | stack | health => [Options.verbose, Options.config, Options.help]
  | help => []

/-- The arguments of a command. -/
def arguments : CommandName → List ArgumentSpec
  | deploy | destroy =>
    [{ name := "STACKS", summary := "Stacks to act on (default: all stacks in the app)"
       required := false, repeated := true }]
  | stackDelete => [{ name := "STACK_ID", summary := "Stack name or ID" }]
  | logs => [{ name := "GROUP", summary := "Log group to follow" }]
  | health => [{ name := "ENDPOINT", summary := "Base URL of the service" }]
  | help =>
    [{ name := "COMMAND", summary := "Print help for the subcommand(s)"
       required := false, repeated := true }]
  | program | stack => []

/-- The command below a command that a word stands for. -/
def child? (c : CommandName) (word : String) : Option CommandName :=
  c.children.find? (·.word = word)

end CommandName

end DeployWatch.Cli
