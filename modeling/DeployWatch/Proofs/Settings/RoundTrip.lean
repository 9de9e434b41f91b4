/-
# Settings are read back from their file

The file that settings are written to is laid out in four sections after the capacity
(`Settings.layout`); a text that has the sections, or the fields of a section, in another order
holds the same settings (`Holds`).  Since the entries of a table are read in the order of their
keys (`sortByKey_eq`), what a section gives is what was written there, whichever options are
present (`readSection_stack` and its siblings).  The main statement is `round_trip`.
-/

import DeployWatch.Proofs.Text.Utf8
import DeployWatch.Proofs.Time.SpanText
import DeployWatch.Proofs.Toml.Layout
import DeployWatch.Settings.Load
import DeployWatch.Settings.Writer

namespace DeployWatch.Settings

open DeployWatch.Text DeployWatch.Time DeployWatch.Toml

/-! ### The text of a file -/

/-- A file of text gives what its text gives. -/
theorem ofFile_of_text {around : Surroundings} {path : Path} {text : String}
    (content : around.files.contentOf around.current path = .ok (Utf8.bytes text)) :
    ofFile around path = match read text with
      | .ok settings => .ok settings
      | .error rejection => .error (.rejected path.text rejection) := by
  cases given : read text <;>
    simp only [ofFile, content, Utf8.bytes, Utf8.decode?_encode, String.ofList_toList, given]

/-! ### The layout of the file -/

/-- The entry of an option, if there is one. -/
def optionalEntry (key : String) : Option String → Entries
  | some value => [(key, .text value)]
  | none => []

/-- The section on stacks. -/
def stackEntries (v : StackSettings) : Entries := [("poll_interval", .text v.interval.text)]

/-- The section on logs. -/
def logEntries (v : LogSettings) : Entries :=
  ("poll_interval", .text v.interval.text) :: optionalEntry "filter_pattern" v.filter

/-- The section on health probes. -/
def healthEntries (v : RetryPolicy) : Entries :=
  [("retry_count", .number v.count), ("retry_delay", .text v.delay.text)]

/-- The section on the deployment tool. -/
def toolEntries (v : ToolSettings) : Entries :=
  ("program", .text v.program) :: optionalEntry "profile" v.profile

/-- How settings are laid out. -/
def layout (s : Settings) : Layout where
  top := [("queue_capacity", .number s.capacity)]
  sections := [⟨"stack", stackEntries s.stack⟩, ⟨"logs", logEntries s.logs⟩,
    ⟨"health", healthEntries s.health⟩, ⟨"deploy", toolEntries s.deploy⟩]

theorem textLine_eq (key value : String) :
    textLine key value = (Line.entry key (.text value)).chars := rfl

theorem numberLine_eq (key : String) (n : Nat) :
    numberLine key n = (Line.entry key (.number n)).chars := rfl

theorem headerLine_eq (name : String) : headerLine name = (Line.header name).chars := by
  simp [headerLine, Line.chars, Line.body]

theorem optionalLine_eq (key : String) (value : Option String) :
    optionalLine key value = (optionalEntry key value).lines.flatMap Line.chars := by
  cases value with
  | none => rfl
  | some value =>
    rw [optionalLine, textLine_eq]
    simp [optionalEntry, Entries.lines]

theorem writtenChars_eq (s : Settings) : s.writtenChars = s.layout.chars := by
  simp only [writtenChars, numberLine_eq, headerLine_eq, textLine_eq, optionalLine_eq, Layout.chars,
    Layout.lines, layout, stackEntries, logEntries, healthEntries, toolEntries, Section.lines,
    Entries.lines, List.map_cons, List.map_nil, List.flatMap_cons, List.flatMap_nil,
    List.flatMap_append, List.cons_append, List.nil_append, List.append_nil, List.append_assoc]

/-- A text holds settings: every field that is present stands under its key in its section, spans
and texts as basic strings, the sections and the fields of a section in any order. -/
def Holds (text : String) (s : Settings) : Prop :=
  ∃ layout : Layout, layout.Rearranges s.layout ∧ text.toList = layout.chars

theorem holds_write (s : Settings) : Holds (write s) s := by
  refine ⟨s.layout, .refl _, ?_⟩
  rw [write, String.toList_ofList, writtenChars_eq]

/-- The keys of the file and of its sections. -/
def knownKeys : List String :=
  ["queue_capacity", "stack", "logs", "health", "deploy", "poll_interval", "filter_pattern",
   "retry_count", "retry_delay", "program", "profile"]

theorem key_mem_knownKeys (s : Settings) :
    ∀ key ∈ s.layout.lines.map Line.key, key ∈ knownKeys := by
  cases filter : s.logs.filter <;> cases profile : s.deploy.profile <;>
    simp [layout, stackEntries, logEntries, healthEntries, toolEntries, optionalEntry, knownKeys,
      Layout.lines, Section.lines, Entries.lines, Line.key, filter, profile]

/-- Every key of the file is bare, and none occurs twice in a table. -/
theorem distinct_layout (s : Settings) : s.layout.Distinct where
  bare := by
    have bare : ∀ key ∈ knownKeys, IsBare key := by decide
    intro key mem
    exact bare key (key_mem_knownKeys s key mem)
  top := by simp [layout]
  sections := by
    simp only [layout, List.forall_mem_cons]
    refine ⟨?stack, ?logs, ?health, ?deploy, nofun⟩
    case stack => simp [stackEntries]
    case logs => cases filter : s.logs.filter <;> simp [logEntries, optionalEntry, filter]
    case health => simp [healthEntries]
    case deploy => cases profile : s.deploy.profile <;> simp [toolEntries, optionalEntry, profile]

/-! ### Reading in the order of keys -/

/-- Two entries with different keys can be inserted in either order. -/
theorem insertByKey_insertByKey {a b : String × Value} (ne : a.1 ≠ b.1) (entries : Table) :
    insertByKey a (insertByKey b entries) = insertByKey b (insertByKey a entries) := by
  have either : (a.1 < b.1 ∧ ¬ b.1 < a.1) ∨ (b.1 < a.1 ∧ ¬ a.1 < b.1) := by
    by_cases less : a.1 < b.1
    · exact .inl ⟨less, String.lt_asymm less⟩
    · by_cases more : b.1 < a.1
      · exact .inr ⟨more, less⟩
      · exact absurd (String.le_antisymm (String.not_lt.mp more) (String.not_lt.mp less)) ne
  induction entries with
  | nil => rcases either with ⟨less, notLess⟩ | ⟨less, notLess⟩ <;> simp [insertByKey, less, notLess]
  | cons head rest ih =>
    by_cases beforeA : a.1 < head.1
    · by_cases beforeB : b.1 < head.1
      · rcases either with ⟨less, notLess⟩ | ⟨less, notLess⟩ <;>
          simp [insertByKey, beforeA, beforeB, less, notLess]
      · have notLess : ¬ b.1 < a.1 := fun less => beforeB (String.lt_trans less beforeA)
        simp [insertByKey, beforeA, beforeB, notLess]
    · by_cases beforeB : b.1 < head.1
      · have notLess : ¬ a.1 < b.1 := fun less => beforeA (String.lt_trans less beforeB)
        simp [insertByKey, beforeA, beforeB, notLess]
      · simp [insertByKey, beforeA, beforeB, ih]

theorem sortByKey_perm {entries entries' : Table} (distinct : (entries.map Prod.fst).Nodup)
    (perm : entries.Perm entries') : sortByKey entries = sortByKey entries' := by
  apply perm.foldr_eq'
  intro a memA b memB rest
  by_cases same : a = b
  · rw [same]
  · have ne : b.1 ≠ a.1 := fun eq => same (List.inj_on_of_nodup_map distinct memA memB eq.symm)
    exact insertByKey_insertByKey ne rest

theorem sortByKey_of_ordered {entries : Table} (ordered : (entries.map Prod.fst).Pairwise (· < ·)) :
    sortByKey entries = entries := by
  induction entries with
  | nil => rfl
  | cons entry rest ih =>
    obtain ⟨least, ordered⟩ := List.pairwise_cons.mp ordered
    rw [sortByKey, List.foldr_cons]
    show insertByKey entry (sortByKey rest) = entry :: rest
    rw [ih ordered]
    cases rest with
    | nil => rfl
    | cons head rest => rw [insertByKey, if_pos (least head.1 List.mem_cons_self)]

/-- Whatever order entries are written in, they are read in the order of their keys. -/
theorem sortByKey_eq {entries sorted : Table} (perm : entries.Perm sorted)
    (ordered : (sorted.map Prod.fst).Pairwise (· < ·)) : sortByKey entries = sorted := by
  have distinct : (sorted.map Prod.fst).Nodup := by
    apply ordered.imp
    rintro key _ less rfl
    exact String.lt_irrefl key less
  rw [← sortByKey_perm distinct perm.symm, sortByKey_of_ordered ordered]

/-! ### Reading the sections -/

theorem readSpan_text (span : Span) : readSpan (.text span.text) = .ok span := by
  rw [readSpan, Span.read?_text]

theorem readNatural_integer {bound n : Nat} (fits : n < bound) :
    readNatural bound (.integer n) = .ok n := by
  have within : 0 ≤ (n : Int) ∧ (n : Int) < bound := by omega
  rw [readNatural, if_pos within, Int.toNat_natCast]

section
variable {σ α : Type} {known : List (Field σ)} {name : String} {convert : Value → Except Rejection α}
  {store : α → σ → σ}

/-- The value of a known field is stored. -/
theorem readEntry_of_known {value : Value} {content : α}
    (field : known.find? (·.name = name) = some (.of name convert store))
    (converted : convert value = .ok content) (s : σ) :
    readEntry known s (name, value) = .ok (store content s) := by
  rw [readEntry, field]
  show (do return store (← convert value) s) = _
  rw [converted]
  rfl

theorem foldlM_of_known {value : Value} {content : α} {entries : Table}
    (field : known.find? (·.name = name) = some (.of name convert store))
    (converted : convert value = .ok content) (s : σ) :
    ((name, value) :: entries).foldlM (readEntry known) s =
      entries.foldlM (readEntry known) (store content s) := by
  rw [List.foldlM_cons, readEntry_of_known field converted]
  rfl

end

theorem ordered_pair {key key' : String} {value value' : Value} (less : key < key') :
    (([(key, value), (key', value')] : Table).map Prod.fst).Pairwise (· < ·) :=
  List.pairwise_pair.mpr less

theorem readSection_stack {v : StackSettings} {entries : Entries}
    (perm : entries.Perm (stackEntries v)) :
    readSection stackFields {} (.table entries.table) = .ok v := by
  have sorted : sortByKey entries.table = [("poll_interval", .text v.interval.text)] :=
    sortByKey_eq (perm.map _) (List.pairwise_singleton _ _)
  rw [readSection, readTable, sorted, foldlM_of_known (by rfl) (readSpan_text v.interval)]
  rfl

theorem readSection_logs {v : LogSettings} {entries : Entries}
    (perm : entries.Perm (logEntries v)) :
    readSection logFields {} (.table entries.table) = .ok v := by
  obtain ⟨interval, filter⟩ := v
  rw [readSection, readTable]
  cases filter with
  | none =>
    have sorted : sortByKey entries.table = [("poll_interval", .text interval.text)] :=
      sortByKey_eq (perm.map _) (List.pairwise_singleton _ _)
    rw [sorted, foldlM_of_known (by rfl) (readSpan_text interval)]
    rfl
  | some pattern =>
    have sorted : sortByKey entries.table =
        [("filter_pattern", .text pattern), ("poll_interval", .text interval.text)] :=
      sortByKey_eq ((perm.map _).trans (.swap _ _ _)) (ordered_pair (by decide))
    have text : readText (.text pattern) = .ok pattern := rfl
    rw [sorted, foldlM_of_known (by rfl) text, foldlM_of_known (by rfl) (readSpan_text interval)]
    rfl

theorem readSection_health {v : RetryPolicy} {entries : Entries}
    (perm : entries.Perm (healthEntries v)) (fits : v.count < Decimal.wordBound) :
    readSection healthFields {} (.table entries.table) = .ok v := by
  have sorted : sortByKey entries.table =
      [("retry_count", .integer v.count), ("retry_delay", .text v.delay.text)] :=
    sortByKey_eq (perm.map _) (ordered_pair (by decide))
  rw [readSection, readTable, sorted, foldlM_of_known (by rfl) (readNatural_integer fits),
    foldlM_of_known (by rfl) (readSpan_text v.delay)]
  rfl

theorem readSection_tool {v : ToolSettings} {entries : Entries}
    (perm : entries.Perm (toolEntries v)) :
    readSection toolFields {} (.table entries.table) = .ok v := by
  obtain ⟨program, profile⟩ := v
  have text (content : String) : readText (.text content) = .ok content := rfl
  rw [readSection, readTable]
  cases profile with
  | none =>
    have sorted : sortByKey entries.table = [("program", .text program)] :=
      sortByKey_eq (perm.map _) (List.pairwise_singleton _ _)
    rw [sorted, foldlM_of_known (by rfl) (text program)]
    rfl
  | some profile =>
    have sorted : sortByKey entries.table = [("profile", .text profile), ("program", .text program)] :=
      sortByKey_eq ((perm.map _).trans (.swap _ _ _)) (ordered_pair (by decide))
    rw [sorted, foldlM_of_known (by rfl) (text profile), foldlM_of_known (by rfl) (text program)]
    rfl

/-! ### Reading the file -/

/-- Settings with numbers that a file can hold: the capacity is a signed number of 64 bits, the
number of attempts a word. -/
structure Writable (s : Settings) : Prop where
  capacity : s.capacity < Decimal.longBound / 2
  count : s.health.count < Decimal.wordBound

/-- The table of a text that holds settings: four sections with their entries in any order, behind
or before one another. -/
theorem exists_perm_table {s : Settings} {layout : Layout} (rearranges : layout.Rearranges s.layout) :
    ∃ stack logs health deploy : Entries,
      stack.Perm (stackEntries s.stack) ∧ logs.Perm (logEntries s.logs) ∧
      health.Perm (healthEntries s.health) ∧ deploy.Perm (toolEntries s.deploy) ∧
      layout.table.Perm [("queue_capacity", .integer s.capacity), ("stack", .table stack.table),
        ("logs", .table logs.table), ("health", .table health.table),
        ("deploy", .table deploy.table)] := by
  obtain ⟨top, between, perm, rearranged⟩ := rearranges
  -- there are as many sections as are written, and each has the name of its counterpart
  rcases rearranged with - | ⟨stack, rearranged⟩
  rcases rearranged with - | ⟨logs, rearranged⟩
  rcases rearranged with - | ⟨health, rearranged⟩
  rcases rearranged with - | ⟨deploy, rearranged⟩
  rcases rearranged with - | -
  have capacity : layout.top = [("queue_capacity", .number s.capacity)] := List.perm_singleton.mp top
  have items := perm.map Section.item
  simp only [List.map_cons, List.map_nil, Section.item, stack.name, logs.name, health.name,
    deploy.name] at items
  refine ⟨_, _, _, _, stack.entries, logs.entries, health.entries, deploy.entries, ?_⟩
  rw [Layout.table, capacity]
  exact items.cons _

theorem ofTable_layout {s : Settings} {layout : Layout} (writable : Writable s)
    (rearranges : layout.Rearranges s.layout) : ofTable layout.table = .ok s := by
  have capacity : s.capacity < Decimal.longBound :=
    Nat.lt_of_lt_of_le writable.capacity (Nat.div_le_self _ 2)
  obtain ⟨stack, logs, health, deploy, stackPerm, logsPerm, healthPerm, deployPerm, perm⟩ :=
    exists_perm_table rearranges
  have sorted : sortByKey layout.table =
      [("deploy", .table deploy.table), ("health", .table health.table),
       ("logs", .table logs.table), ("queue_capacity", .integer s.capacity),
       ("stack", .table stack.table)] := by
    apply sortByKey_eq
    · -- the sections are written in the reverse order of their names, but for the last two
      apply perm.trans
      apply (List.reverse_perm _).symm.trans
      exact .cons _ (.cons _ (.cons _ (.swap _ _ [])))
    · show ["deploy", "health", "logs", "queue_capacity", "stack"].Pairwise (· < ·)
      decide
  rw [ofTable, readTable, sorted, foldlM_of_known (by rfl) (readSection_tool deployPerm),
    foldlM_of_known (by rfl) (readSection_health healthPerm writable.count),
    foldlM_of_known (by rfl) (readSection_logs logsPerm),
    foldlM_of_known (by rfl) (readNatural_integer capacity),
    foldlM_of_known (by rfl) (readSection_stack stackPerm)]
  rfl

/-- A text that holds settings gives the settings. -/
theorem read_of_holds {s : Settings} {text : String} (writable : Writable s)
    (holds : Holds text s) : read text = .ok s := by
  obtain ⟨layout, rearranges, written⟩ := holds
  have distinct : layout.Distinct := rearranges.distinct (distinct_layout s)
  rw [read, Document.read?_layout distinct written]
  exact ofTable_layout writable rearranges

/-- Settings survive the way through a file: no span, whatever its length, no text, whatever its
characters, and no option is changed by writing and reading them. -/
theorem round_trip {s : Settings} (writable : Writable s) :
    Holds (write s) s ∧
    ∀ text, Holds text s → ∀ (around : Surroundings) (path : Path),
      around.files.contentOf around.current path = .ok (Utf8.bytes text) →
      ofFile around path = .ok s := by
  constructor
  · exact holds_write s
  · intro text holds around path content
    rw [ofFile_of_text content, read_of_holds writable holds]

/-- Surroundings with nothing but the file of some settings. -/
def holding (s : Settings) : Surroundings where
  files := ⟨[(["settings.toml"], .file (Utf8.bytes (write s)))]⟩
  current := []
  env := []

/-- Settings with the greatest numbers, the longest span, a text of quotes, backslashes and control
characters, one option present and one absent. -/
def extreme : Settings where
  capacity := Decimal.longBound / 2 - 1
  stack := { interval := Span.ofMillis (secondBound * 1000) }
  logs := { interval := Span.zero, filter := some "\"\\a\\\"\n\x01é" }
  health := { count := Decimal.wordBound - 1 }

theorem round_trip_extreme :
    Writable extreme ∧ ofFile (holding extreme) ⟨"settings.toml"⟩ = .ok extreme := by
  have writable : Writable extreme := ⟨by decide, by decide⟩
  have content : (holding extreme).files.contentOf (holding extreme).current ⟨"settings.toml"⟩ =
      .ok (Utf8.bytes (write extreme)) := rfl
  obtain ⟨holds, read⟩ := round_trip writable
  exact ⟨writable, read (write extreme) holds (holding extreme) ⟨"settings.toml"⟩ content⟩

end DeployWatch.Settings
