/-
# Writing settings

The text of a settings file that gives exactly the settings it was written from: every field
under its key in its section, numbers in decimal, spans and texts as basic strings, and
options that are absent left out.
-/

import DeployWatch.Settings.Schema

namespace DeployWatch.Settings

open DeployWatch.Text DeployWatch.Time DeployWatch.Toml

/-- A line that assigns a text. -/
def textLine (key value : String) : List Char :=
  key.toList ++ " = ".toList ++ writeBasic value.toList ++ ['\n']

/-- A line that assigns a text, if there is one. -/
def optionalLine (key : String) : Option String → List Char
  | some value => textLine key value
  | none => []

/-- A line that assigns a number. -/
def numberLine (key : String) (n : Nat) : List Char :=
  key.toList ++ " = ".toList ++ Decimal.digits n ++ ['\n']

/-- The line that opens a section. -/
def headerLine (name : String) : List Char := '[' :: name.toList ++ [']', '\n']

/-- The characters of the file. -/
def writtenChars (s : Settings) : List Char :=
  numberLine "queue_capacity" s.capacity
    ++ headerLine "stack" ++ textLine "poll_interval" s.stack.interval.text
    ++ headerLine "logs" ++ textLine "poll_interval" s.logs.interval.text
    ++ optionalLine "filter_pattern" s.logs.filter
    ++ headerLine "health" ++ numberLine "retry_count" s.health.count
    ++ textLine "retry_delay" s.health.delay.text
    ++ headerLine "deploy" ++ textLine "program" s.deploy.program
    ++ optionalLine "profile" s.deploy.profile

/-- The text of the file. -/
def write (s : Settings) : String := String.ofList s.writtenChars

end DeployWatch.Settings
