/-
# Faults

A fault is what a command of this program ends with when it fails.  It belongs to a category,
which fixes the exit code; it has a number, a message and the texts of its causes, the
nearest first.  Context is appended to the message, and naming a cause replaces the causes
named before.
-/

import DeployWatch.Fault.Code
import DeployWatch.Fault.Hint
import DeployWatch.Text.Decimal

namespace DeployWatch

open DeployWatch.Text

/-- Which part of the program failed. -/
inductive Category where
  /-- Locating or reading the settings, perhaps those of a certain file. -/
  | config (path : Option String)
  /-- Running the deployment tool, perhaps by a certain command. -/
  | execution (command : Option String)
  | cloud
  | monitor
  | other
  deriving DecidableEq, Repr

/-- The failure of a command. -/
structure Fault where
  category : Category
  code : Code
  message : String
  /-- The texts of the causes, the nearest first. -/
  causes : List String := []
  deriving DecidableEq, Repr

namespace Category

/-- The name of a category in reports. -/
def name : Category → String
  | config _ => "config"
  | execution _ => "execution"
  | cloud => "cloud"
  | monitor => "monitor"
  | other => "other"

/-- The words in front of a message. -/
def label : Category → String
  | config _ => "Configuration error: "
  | execution _ => "Execution error: "
  | cloud => "Cloud error: "
  | monitor => "Monitor error: "
  | other => ""

/-- The exit code of the program. -/
def exitCode : Category → Nat
  | config _ => 2
  | execution _ => 5
  | cloud => 6
  | monitor => 8
  | other => 1

/-- The thousand that the codes of a category lie in. -/
def thousand : Category → Nat
  | config _ => 1
  | execution _ => 4
  | cloud => 6
  | monitor => 8
  | other => 9

end Category

namespace Fault

/-- A configuration fault without a more specific code. -/
def config (message : String) : Fault := ⟨.config none, Code.configGeneric, message, []⟩

/-- An execution fault without a more specific code. -/
def execution (message : String) : Fault := ⟨.execution none, Code.execGeneric, message, []⟩

/-- A fault outside all categories. -/
def other (message : String) : Fault := ⟨.other, Code.otherGeneric, message, []⟩

/-- The fault in one line: its code, category and message. -/
def display (f : Fault) : String :=
  "[E" ++ String.ofList (Decimal.padded 4 f.code.toNat) ++ "] " ++ f.category.label ++ f.message

/-- The fault and its causes. -/
def chain (f : Fault) : List String := f.display :: f.causes

/-- The fault and its causes in one line. -/
def alternate (f : Fault) : String := String.intercalate ": " f.chain

/-- The exit code of a program that ends with this fault. -/
def exitCode (f : Fault) : Nat := f.category.exitCode

/-- The message for someone who does not know the categories. -/
def userMessage (f : Fault) : String :=
  match f.category with
  | .config (some path) => "Configuration problem in " ++ path ++ ": " ++ f.message
  | .config none => "Configuration problem: " ++ f.message
  | .execution (some command) => "Command '" ++ command ++ "' failed: " ++ f.message
  | .execution none => "Execution error: " ++ f.message
  | .cloud => "Cloud request failed: " ++ f.message
  | .monitor => f.message
  | .other => f.message

/-- The fault with context appended to its message. -/
def withContext (f : Fault) (context : String) : Fault :=
  { f with message := f.message ++ ": " ++ context }

/-- The fault with these causes instead of its own. -/
def withCauses (f : Fault) (causes : List String) : Fault := { f with causes }

/-- The remedy for the fault, looked up in its whole chain. -/
def hint? (f : Fault) : Option String := Hint.forMessage? f.alternate

/-- A step that decorates a fault. -/
inductive Decoration where
  | context (text : String)
  | causes (chain : List String)
  deriving DecidableEq, Repr

/-- The fault after one decoration. -/
def decorate (f : Fault) : Decoration → Fault
  | .context text => f.withContext text
  | .causes chain => f.withCauses chain

/-- The fault after decorations in their order. -/
def decorateAll (f : Fault) (steps : List Decoration) : Fault := steps.foldl decorate f

end Fault

end DeployWatch
