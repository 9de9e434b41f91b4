/-
# The schema of the settings file

Which keys the file may have, and what each of them means.  A section lists its fields once;
the same list decides which keys are known, reads their values and words the complaint about
a key that is not in it.

Keys are read in the order of their code points, so of several faults the one with the first
key counts.  A field that is not given keeps its default.  A section may also be written as
an array of its fields in their order; further items are ignored.
-/

import DeployWatch.Settings.Basic
import DeployWatch.Text.Decimal
import DeployWatch.Time.SpanText
import DeployWatch.Toml.Document

namespace DeployWatch.Settings

open DeployWatch.Text DeployWatch.Time DeployWatch.Toml

/-- Why a document gives no settings. -/
inductive Rejection where
  /-- The text is not a document. -/
  | malformed
  /-- A table has a key that its section does not know. -/
  | unknownField (name : String) (expected : List String)
  /-- A value is not of its field's type. -/
  | mismatch
  deriving DecidableEq, Repr

/-- A name between back quotes. -/
def backQuoted (name : String) : String := "`" ++ name ++ "`"

/-- The names that a section expects, as part of a sentence. -/
def expectation : List String → String
  | [a] => "expected " ++ backQuoted a
  | [a, b] => "expected " ++ backQuoted a ++ " or " ++ backQuoted b
  | names => "expected one of " ++ String.intercalate ", " (names.map backQuoted)

/-- The complaint in words; the parser's own complaints have none. -/
def Rejection.message? : Rejection → Option String
  | .unknownField name expected =>
    some ("unknown field " ++ backQuoted name ++ ", " ++ expectation expected)
  | _ => none

/-! ## Fields and sections -/

/-- A key of a section with elements of type `σ`, and what its value changes. -/
structure Field (σ : Type) where
  /-- The key. -/
  name : String
  /-- Puts a value into a section. -/
  read : Value → σ → Except Rejection σ

/-- A field whose value is converted by `convert` and stored by `store`. -/
def Field.of {σ α : Type} (name : String) (convert : Value → Except Rejection α)
    (store : α → σ → σ) : Field σ where
  name
  read v s := do return store (← convert v) s

/-- Inserts an entry among entries in the order of their keys. -/
def insertByKey (entry : String × Value) : Table → Table
  | [] => [entry]
  | head :: rest => if entry.1 < head.1 then entry :: head :: rest
    else head :: insertByKey entry rest

/-- Entries in the order of their keys. -/
def sortByKey (entries : Table) : Table := entries.foldr insertByKey []

/-- Reads one entry of a section. -/
def readEntry {σ : Type} (fields : List (Field σ)) (s : σ) (entry : String × Value) :
    Except Rejection σ :=
  match fields.find? (·.name = entry.1) with
  | some field => field.read entry.2 s
  | none => .error (.unknownField entry.1 (fields.map (·.name)))

/-- Reads the table of a section into the section's defaults. -/
def readTable {σ : Type} (fields : List (Field σ)) (base : σ) (entries : Table) :
    Except Rejection σ :=
  (sortByKey entries).foldlM (readEntry fields) base

/-- Reads a section that is written as an array. -/
def readArray {σ : Type} : List (Field σ) → σ → List Value → Except Rejection σ
  | field :: fields, s, item :: items => do readArray fields (← field.read item s) items
  | _, s, _ => .ok s

/-- The key under which a date or time hands over its text where a table is expected. -/
def momentKey : String := "$__toml_private_datetime"

/-- Reads a section from whatever stands in its place. -/
def readSection {σ : Type} (fields : List (Field σ)) (base : σ) : Value → Except Rejection σ
  | .table entries => readTable fields base entries
  | .array items => readArray fields base items
  | .moment literal => readTable fields base [(momentKey, .text literal)]
  | _ => .error .mismatch

/-! ## Values -/

/-- A text. -/
def readText : Value → Except Rejection String
  | .text s => .ok s
  | _ => .error .mismatch

/-- A natural number below a bound. -/
def readNatural (bound : Nat) : Value → Except Rejection Nat
  | .integer i => if 0 ≤ i ∧ i < bound then .ok i.toNat else .error .mismatch
  | _ => .error .mismatch

/-- A span of time, as text. -/
def readSpan : Value → Except Rejection Span
  | .text s => match Span.read? s with
    | some span => .ok span
    | none => .error .mismatch
  | _ => .error .mismatch

/-! ## The sections -/

/-- The fields of the section on stacks. -/
def stackFields : List (Field StackSettings) :=
  [.of "poll_interval" readSpan fun d s => { s with interval := d }]

/-- The fields of the section on logs. -/
def logFields : List (Field LogSettings) :=
  [.of "poll_interval" readSpan fun d s => { s with interval := d },
   .of "filter_pattern" readText fun p s => { s with filter := some p }]

/-- The fields of the section on health probes. -/
def healthFields : List (Field RetryPolicy) :=
  [.of "retry_count" (readNatural Decimal.wordBound) fun n s => { s with count := n },
   .of "retry_delay" readSpan fun d s => { s with delay := d }]

/-- The fields of the section on the deployment tool. -/
def toolFields : List (Field ToolSettings) :=
  [.of "program" readText fun p s => { s with program := p },
   .of "profile" readText fun p s => { s with profile := some p }]

/-- The fields of the whole file.  A section starts from its own defaults. -/
def fields : List (Field Settings) :=
  [.of "queue_capacity" (readNatural Decimal.longBound) fun n s => { s with capacity := n },
   .of "stack" (readSection stackFields {}) fun v s => { s with stack := v },
   .of "logs" (readSection logFields {}) fun v s => { s with logs := v },
   .of "health" (readSection healthFields {}) fun v s => { s with health := v },
   .of "deploy" (readSection toolFields {}) fun v s => { s with deploy := v }]

/-- The settings that a document's top-level table gives. -/
def ofTable (entries : Table) : Except Rejection Settings := readTable fields {} entries

/-- The settings that the text of a file gives. -/
def read (text : String) : Except Rejection Settings :=
  match Document.read? text with
  | some entries => ofTable entries
  | none => .error .malformed

end DeployWatch.Settings
