/-
# What a file gives and what it leaves open

A settings file may give any of the known keys, in any order.  `Given` says, part by part, which
settings a document gives: what the value under the part's key stands for, or the default where the
key is not given (`Takes`).  No other entry of the document counts.

All sections are read in one way, so one statement covers them: fields that each write a part of
their own (`Lawful`) give just the settings whose parts are taken from the table
(`readTable_eq_ok_iff`).
-/

import DeployWatch.Proofs.Settings.RoundTrip
import DeployWatch.Proofs.Toml.Keys

namespace DeployWatch.Settings

open DeployWatch.Text DeployWatch.Time DeployWatch.Toml

/-! ### What a table gives -/

/-- A part of a section is what the value under its key stands for, or its default if the key is not
given. -/
structure Takes {α : Type} (t : Table) (key : String) (stands : Value → α → Prop)
    (default x : α) : Prop where
  given : ∀ value, (key, value) ∈ t → stands value x
  absent : key ∉ t.keys → x = default

/-- A value is a text. -/
def IsText (value : Value) (text : String) : Prop := value = .text text

/-- A value is a natural number below a bound. -/
def IsNatural (bound : Nat) (value : Value) (n : Nat) : Prop := value = .integer n ∧ n < bound

/-- A value is the text of a span. -/
def IsSpan (value : Value) (span : Span) : Prop :=
  ∃ text, value = .text text ∧ Span.read? text = some span

/-- An option is present, with what the value stands for. -/
def IsPresent {α : Type} (stands : Value → α → Prop) (value : Value) (option : Option α) : Prop :=
  ∃ x, stands value x ∧ option = some x

/-- A value is a table that gives a section. -/
def IsSection {α : Type} (gives : Table → α → Prop) (value : Value) (x : α) : Prop :=
  ∃ t, value = .table t ∧ gives t x

/-- The table of the section on stacks. -/
structure StackGiven (t : Table) (v : StackSettings) : Prop where
  known : ∀ key ∈ t.keys, key ∈ ["poll_interval"]
  interval : Takes t "poll_interval" IsSpan (Span.ofMillis 5000) v.interval

/-- The table of the section on logs. -/
structure LogsGiven (t : Table) (v : LogSettings) : Prop where
  known : ∀ key ∈ t.keys, key ∈ ["poll_interval", "filter_pattern"]
  interval : Takes t "poll_interval" IsSpan (Span.ofMillis 1000) v.interval
  filter : Takes t "filter_pattern" (IsPresent IsText) none v.filter

/-- The table of the section on health probes. -/
structure HealthGiven (t : Table) (v : RetryPolicy) : Prop where
  known : ∀ key ∈ t.keys, key ∈ ["retry_count", "retry_delay"]
  count : Takes t "retry_count" (IsNatural (2 ^ 32)) 3 v.count
  delay : Takes t "retry_delay" IsSpan (Span.ofMillis 3000) v.delay

/-- The table of the section on the deployment tool. -/
structure ToolGiven (t : Table) (v : ToolSettings) : Prop where
  known : ∀ key ∈ t.keys, key ∈ ["program", "profile"]
  program : Takes t "program" IsText "cdk" v.program
  profile : Takes t "profile" (IsPresent IsText) none v.profile

/-- The settings that a document gives.  A section that is not given has its defaults. -/
structure Given (t : Table) (s : Settings) : Prop where
  known : ∀ key ∈ t.keys, key ∈ ["queue_capacity", "stack", "logs", "health", "deploy"]
  capacity : Takes t "queue_capacity" (IsNatural (2 ^ 64)) 16 s.capacity
  stack : Takes t "stack" (IsSection StackGiven) {} s.stack
  logs : Takes t "logs" (IsSection LogsGiven) {} s.logs
  health : Takes t "health" (IsSection HealthGiven) {} s.health
  deploy : Takes t "deploy" (IsSection ToolGiven) {} s.deploy

/-! ### Fields that write parts of their own -/

/-- A field together with the part of the section that it writes. -/
structure Slot (σ : Type) where
  {content part : Type}
  name : String
  convert : Value → Except Rejection content
  store : content → σ → σ
  /-- The part that the field writes. -/
  get : σ → part
  /-- What is written there. -/
  kept : content → part

namespace Slot

variable {σ : Type}

/-- The field of a slot. -/
def field (slot : Slot σ) : Field σ := .of slot.name slot.convert slot.store

/-- The value is converted, and the part is what is written then. -/
def Stands (slot : Slot σ) (value : Value) (x : slot.part) : Prop :=
  ∃ content, slot.convert value = .ok content ∧ x = slot.kept content

/-- The part of a slot is taken from a table, or stays what it is at first. -/
def Holds (slot : Slot σ) (base : σ) (t : Table) (s : σ) : Prop :=
  Takes t slot.name slot.Stands (slot.get base) (slot.get s)

theorem read_field_eq_ok_iff {slot : Slot σ} {value : Value} {s s' : σ} :
    slot.field.read value s = .ok s' ↔
      ∃ content, slot.convert value = .ok content ∧ s' = slot.store content s := by
  show (do return slot.store (← slot.convert value) s) = Except.ok s' ↔ _
  cases slot.convert value with
  | error rejection => exact ⟨nofun, nofun⟩
  | ok content =>
    constructor
    · intro same
      exact ⟨content, rfl, (Except.ok.inj same).symm⟩
    · rintro ⟨content', same, rfl⟩
      rw [Except.ok.inj same]
      rfl

end Slot

/-- Each of the slots writes a part of its own, and there are no other parts. -/
structure Lawful {σ : Type} (slots : List (Slot σ)) : Prop where
  distinct : (slots.map Slot.name).Nodup
  own : ∀ slot ∈ slots, ∀ content s, slot.get (slot.store content s) = slot.kept content
  others : ∀ slot ∈ slots, ∀ other ∈ slots, slot.name ≠ other.name →
    ∀ content s, slot.get (other.store content s) = slot.get s
  ext : ∀ s s', (∀ slot ∈ slots, slot.get s = slot.get s') → s = s'

section
variable {σ : Type} {slots : List (Slot σ)} {base s s' : σ} {t : Table}

/-- An entry is read by the slot of its key. -/
theorem readEntry_eq_ok_iff (lawful : Lawful slots) {entry : String × Value} :
    readEntry (slots.map Slot.field) s entry = .ok s' ↔ ∃ slot ∈ slots, slot.name = entry.1 ∧
      ∃ content, slot.convert entry.2 = .ok content ∧ s' = slot.store content s := by
  have find_eq : (slots.map Slot.field).find? (·.name = entry.1) =
      (slots.find? (·.name = entry.1)).map Slot.field := List.find?_map
  rw [readEntry, find_eq]
  constructor
  · intro read
    cases found : slots.find? (·.name = entry.1) with
    | none => simp [found] at read
    | some slot =>
      rw [found] at read
      have name : slot.name = entry.1 := by simpa using List.find?_some found
      exact ⟨slot, List.mem_of_find?_eq_some found, name, Slot.read_field_eq_ok_iff.mp read⟩
  · rintro ⟨slot, mem, name, converted⟩
    have found : slots.find? (·.name = entry.1) = some slot := by
      cases found : slots.find? (·.name = entry.1) with
      | none =>
        have missing := List.find?_eq_none.mp found slot mem
        simp [name] at missing
      | some first =>
        have name' : first.name = entry.1 := by simpa using List.find?_some found
        have same : first = slot := List.inj_on_of_nodup_map lawful.distinct
          (List.mem_of_find?_eq_some found) mem (name'.trans name.symm)
        rw [same]
    rw [found]
    exact Slot.read_field_eq_ok_iff.mpr converted

/-- What has been read of entries with different keys: every key has a slot, and every part is
taken from them. -/
theorem holds_of_foldlM (lawful : Lawful slots) (distinct : t.keys.Nodup)
    (read : t.foldlM (readEntry (slots.map Slot.field)) s = .ok s') :
    (∀ key ∈ t.keys, key ∈ slots.map Slot.name) ∧ ∀ slot ∈ slots, slot.Holds s t s' := by
  induction t generalizing s with
  | nil =>
    obtain rfl := Except.ok.inj read
    exact ⟨nofun, fun slot _ => ⟨nofun, fun _ => rfl⟩⟩
  | cons entry rest ih =>
    obtain ⟨new, distinct⟩ := List.nodup_cons.mp distinct
    rw [List.foldlM_cons] at read
    cases first : readEntry (slots.map Slot.field) s entry with
    | error rejection =>
      rw [first] at read
      cases read
    | ok next =>
      rw [first] at read
      obtain ⟨known, holds⟩ := ih distinct read
      obtain ⟨writer, mem, name, content, converted, rfl⟩ := (readEntry_eq_ok_iff lawful).mp first
      constructor
      · intro key there
        rcases List.mem_cons.mp there with rfl | later
        · exact name ▸ List.mem_map_of_mem mem
        · exact known key later
      · intro slot slotMem
        have after := holds slot slotMem
        by_cases own : slot.name = entry.1
        · -- no later entry has this key, so what is written here stays
          have same : slot = writer :=
            List.inj_on_of_nodup_map lawful.distinct slotMem mem (own.trans name.symm)
          subst same
          have stays : slot.get s' = slot.kept content := by
            rw [after.absent (own ▸ new), lawful.own slot mem]
          constructor
          · intro value there
            rcases List.mem_cons.mp there with here | later
            · rw [← here] at converted
              exact ⟨content, converted, stays⟩
            · exact absurd (List.mem_map_of_mem later) (own ▸ new)
          · intro absent
            exact absurd (own ▸ List.mem_cons_self) absent
        · have untouched : slot.get (writer.store content s) = slot.get s := by
            apply lawful.others slot slotMem writer mem
            rw [name]
            exact own
          constructor
          · intro value there
            rcases List.mem_cons.mp there with here | later
            · exact absurd (congrArg Prod.fst here) own
            · exact after.given value later
          · intro absent
            rw [after.absent fun later => absent (List.mem_cons_of_mem _ later), untouched]

/-- Entries that each have a slot to convert them can be read. -/
theorem exists_foldlM (lawful : Lawful slots) (readable : ∀ entry ∈ t, ∃ slot ∈ slots,
    slot.name = entry.1 ∧ ∃ content, slot.convert entry.2 = .ok content) :
    ∃ s', t.foldlM (readEntry (slots.map Slot.field)) s = .ok s' := by
  induction t generalizing s with
  | nil => exact ⟨s, rfl⟩
  | cons entry rest ih =>
    obtain ⟨⟨slot, mem, name, content, converted⟩, others⟩ := List.forall_mem_cons.mp readable
    obtain ⟨s', read⟩ := @ih (slot.store content s) others
    have first : readEntry (slots.map Slot.field) s entry = .ok (slot.store content s) :=
      (readEntry_eq_ok_iff lawful).mpr ⟨slot, mem, name, content, converted, rfl⟩
    refine ⟨s', ?_⟩
    rw [List.foldlM_cons, first]
    exact read

/-- Sorting entries by their keys loses none of them. -/
theorem perm_sortByKey (entries : Table) : (sortByKey entries).Perm entries := by
  have insert (entry : String × Value) (sorted : Table) :
      (insertByKey entry sorted).Perm (entry :: sorted) := by
    induction sorted with
    | nil => exact .refl _
    | cons head rest ih =>
      rw [insertByKey]
      split
      · exact .refl _
      · exact (ih.cons head).trans (.swap entry head rest)
  induction entries with
  | nil => exact .refl _
  | cons entry rest ih => exact (insert entry (sortByKey rest)).trans (ih.cons entry)

theorem Takes.perm {α : Type} {t t' : Table} {key : String} {stands : Value → α → Prop}
    {default x : α} (takes : Takes t key stands default x) (perm : t.Perm t') :
    Takes t' key stands default x where
  given value there := takes.given value (perm.mem_iff.mpr there)
  absent missing := takes.absent fun there => missing ((perm.map Prod.fst).mem_iff.mp there)

/-- What is taken from a table is one thing, if every value stands for one thing at most. -/
theorem Takes.unique {α : Type} {t : Table} {key : String} {stands : Value → α → Prop}
    {default x x' : α} (functional : ∀ value y y', stands value y → stands value y' → y = y')
    (takes : Takes t key stands default x) (takes' : Takes t key stands default x') : x = x' := by
  by_cases there : key ∈ t.keys
  · obtain ⟨⟨_, value⟩, mem, rfl⟩ := List.mem_map.mp there
    exact functional value x x' (takes.given value mem) (takes'.given value mem)
  · rw [takes.absent there, takes'.absent there]

/-- Fields that each write a part of their own give just the sections whose parts are taken from the
table, provided all keys of the table are known. -/
theorem readTable_eq_ok_iff (lawful : Lawful slots) (distinct : t.keys.Nodup) :
    readTable (slots.map Slot.field) base t = .ok s ↔
      (∀ key ∈ t.keys, key ∈ slots.map Slot.name) ∧ ∀ slot ∈ slots, slot.Holds base t s := by
  have perm := perm_sortByKey t
  have sorted : Table.keys (sortByKey t) |>.Nodup := (perm.map Prod.fst).nodup_iff.mpr distinct
  have forward {s : σ} (read : readTable (slots.map Slot.field) base t = .ok s) :
      (∀ key ∈ t.keys, key ∈ slots.map Slot.name) ∧ ∀ slot ∈ slots, slot.Holds base t s := by
    obtain ⟨known, holds⟩ := holds_of_foldlM lawful sorted read
    constructor
    · intro key there
      exact known key ((perm.map Prod.fst).mem_iff.mpr there)
    · intro slot mem
      exact (holds slot mem).perm perm
  constructor
  · exact forward
  · rintro ⟨known, holds⟩
    have readable : ∀ entry ∈ sortByKey t, ∃ slot ∈ slots, slot.name = entry.1 ∧
        ∃ content, slot.convert entry.2 = .ok content := by
      rintro ⟨key, value⟩ there
      have inside : (key, value) ∈ t := perm.mem_iff.mp there
      obtain ⟨slot, mem, rfl⟩ := List.mem_map.mp (known key (List.mem_map_of_mem inside))
      obtain ⟨content, converted, -⟩ := (holds slot mem).given value inside
      exact ⟨slot, mem, rfl, content, converted⟩
    obtain ⟨s', read⟩ := exists_foldlM (s := base) lawful readable
    have same : s' = s := by
      apply lawful.ext
      intro slot mem
      apply Takes.unique ?_ ((forward read).2 slot mem) (holds slot mem)
      rintro value _ _ ⟨content, converted, rfl⟩ ⟨content', converted', rfl⟩
      rw [converted] at converted'
      rw [Except.ok.inj converted']
    rw [← same]
    exact read

end

/-! ### The sections -/

/-- The parts of the section on stacks. -/
def stackSlots : List (Slot StackSettings) :=
  [{ name := "poll_interval", convert := readSpan, store := fun d s => { s with interval := d },
     get := (·.interval), kept := id }]

/-- The parts of the section on logs. -/
def logSlots : List (Slot LogSettings) :=
  [{ name := "poll_interval", convert := readSpan, store := fun d s => { s with interval := d },
     get := (·.interval), kept := id },
   { name := "filter_pattern", convert := readText, store := fun p s => { s with filter := some p },
     get := (·.filter), kept := some }]

/-- The parts of the section on health probes. -/
def healthSlots : List (Slot RetryPolicy) :=
  [{ name := "retry_count", convert := readNatural Decimal.wordBound,
     store := fun n s => { s with count := n }, get := (·.count), kept := id },
   { name := "retry_delay", convert := readSpan, store := fun d s => { s with delay := d },
     get := (·.delay), kept := id }]

/-- The parts of the section on the deployment tool. -/
def toolSlots : List (Slot ToolSettings) :=
  [{ name := "program", convert := readText, store := fun p s => { s with program := p },
     get := (·.program), kept := id },
   { name := "profile", convert := readText, store := fun p s => { s with profile := some p },
     get := (·.profile), kept := some }]

/-- The parts of the whole file. -/
def slots : List (Slot Settings) :=
  [{ name := "queue_capacity", convert := readNatural Decimal.longBound,
     store := fun n s => { s with capacity := n }, get := (·.capacity), kept := id },
   { name := "stack", convert := readSection stackFields {},
     store := fun v s => { s with stack := v }, get := (·.stack), kept := id },
   { name := "logs", convert := readSection logFields {},
     store := fun v s => { s with logs := v }, get := (·.logs), kept := id },
   { name := "health", convert := readSection healthFields {},
     store := fun v s => { s with health := v }, get := (·.health), kept := id },
   { name := "deploy", convert := readSection toolFields {},
     store := fun v s => { s with deploy := v }, get := (·.deploy), kept := id }]

theorem stackFields_eq : stackFields = stackSlots.map Slot.field := rfl

theorem logFields_eq : logFields = logSlots.map Slot.field := rfl

theorem healthFields_eq : healthFields = healthSlots.map Slot.field := rfl

theorem toolFields_eq : toolFields = toolSlots.map Slot.field := rfl

theorem fields_eq : fields = slots.map Slot.field := rfl

theorem lawful_stackSlots : Lawful stackSlots where
  distinct := by simp [stackSlots]
  own := by simp [stackSlots]
  others := by simp [stackSlots]
  ext s s' same := by
    cases s
    cases s'
    simpa [stackSlots] using same

theorem lawful_logSlots : Lawful logSlots where
  distinct := by simp [logSlots]
  own := by simp [logSlots]
  others := by simp [logSlots]
  ext s s' same := by
    cases s
    cases s'
    simpa [logSlots] using same

theorem lawful_healthSlots : Lawful healthSlots where
  distinct := by simp [healthSlots]
  own := by simp [healthSlots]
  others := by simp [healthSlots]
  ext s s' same := by
    cases s
    cases s'
    simpa [healthSlots] using same

theorem lawful_toolSlots : Lawful toolSlots where
  distinct := by simp [toolSlots]
  own := by simp [toolSlots]
  others := by simp [toolSlots]
  ext s s' same := by
    cases s
    cases s'
    simpa [toolSlots] using same

theorem lawful_slots : Lawful slots where
  distinct := by simp [slots]
  own := by simp [slots]
  others := by simp [slots]
  ext s s' same := by
    cases s
    cases s'
    simpa [slots] using same

/-! ### Values -/

theorem readText_eq_ok_iff {value : Value} {text : String} :
    readText value = .ok text ↔ IsText value text := by
  unfold IsText
  cases value with
  | text content =>
    show Except.ok content = Except.ok text ↔ _
    simp
  | _ => simp [readText]

theorem readNatural_eq_ok_iff {bound : Nat} {value : Value} {n : Nat} :
    readNatural bound value = .ok n ↔ IsNatural bound value n := by
  unfold IsNatural
  cases value with
  | integer i =>
    rw [readNatural]
    constructor
    · intro read
      split at read
      · obtain rfl := Except.ok.inj read
        refine ⟨?_, by omega⟩
        rw [Int.toNat_of_nonneg (by omega)]
      · cases read
    · rintro ⟨same, below⟩
      obtain rfl := Value.integer.inj same
      exact readNatural_integer below
  | _ => simp [readNatural]

theorem readSpan_eq_ok_iff {value : Value} {span : Span} :
    readSpan value = .ok span ↔ IsSpan value span := by
  unfold IsSpan
  cases value with
  | text content =>
    simp only [readSpan, Value.text.injEq, exists_eq_left']
    cases Span.read? content <;> simp
  | _ => simp [readSpan]

theorem Takes.congr {α : Type} {t : Table} {key : String} {stands stands' : Value → α → Prop}
    {default x : α} (same : ∀ value, (key, value) ∈ t → (stands value x ↔ stands' value x)) :
    Takes t key stands default x ↔ Takes t key stands' default x := by
  constructor
  · rintro ⟨given, absent⟩
    exact ⟨fun value there => (same value there).mp (given value there), absent⟩
  · rintro ⟨given, absent⟩
    exact ⟨fun value there => (same value there).mpr (given value there), absent⟩

section
variable {σ α : Type} {name : String} {convert : Value → Except Rejection α} {store : α → σ → σ}
  {stands : Value → α → Prop} {base s : σ} {t : Table}

/-- A part that keeps what its value stands for. -/
theorem holds_plain_iff {get : σ → α}
    (same : ∀ value, (name, value) ∈ t → (convert value = .ok (get s) ↔ stands value (get s))) :
    Slot.Holds { name, convert, store, get, kept := id } base t s ↔
      Takes t name stands (get base) (get s) := by
  apply Takes.congr
  intro value there
  rw [← same value there]
  constructor
  · rintro ⟨content, converted, rfl⟩
    exact converted
  · intro converted
    exact ⟨get s, converted, rfl⟩

/-- A part that is absent unless its key is given. -/
theorem holds_option_iff {get : σ → Option α}
    (same : ∀ value x, convert value = .ok x ↔ stands value x) :
    Slot.Holds { name, convert, store, get, kept := some } base t s ↔
      Takes t name (IsPresent stands) (get base) (get s) := by
  apply Takes.congr
  intro value _
  unfold Slot.Stands IsPresent
  simp only [same]

end

/-! ### Sections -/

section
variable {t : Table} (distinct : t.keys.Nodup)
include distinct

theorem readTable_stack_iff {v : StackSettings} :
    readTable stackFields {} t = .ok v ↔ StackGiven t v := by
  rw [stackFields_eq, readTable_eq_ok_iff lawful_stackSlots distinct]
  simp only [stackSlots, List.forall_mem_cons,
    holds_plain_iff fun _ _ => readSpan_eq_ok_iff]
  constructor
  · rintro ⟨known, interval, -⟩
    exact ⟨known, interval⟩
  · rintro ⟨known, interval⟩
    exact ⟨known, interval, nofun⟩

theorem readTable_logs_iff {v : LogSettings} :
    readTable logFields {} t = .ok v ↔ LogsGiven t v := by
  rw [logFields_eq, readTable_eq_ok_iff lawful_logSlots distinct]
  simp only [logSlots, List.forall_mem_cons, holds_plain_iff fun _ _ => readSpan_eq_ok_iff,
    holds_option_iff fun _ _ => readText_eq_ok_iff]
  constructor
  · rintro ⟨known, interval, filter, -⟩
    exact ⟨known, interval, filter⟩
  · rintro ⟨known, interval, filter⟩
    exact ⟨known, interval, filter, nofun⟩

theorem readTable_health_iff {v : RetryPolicy} :
    readTable healthFields {} t = .ok v ↔ HealthGiven t v := by
  rw [healthFields_eq, readTable_eq_ok_iff lawful_healthSlots distinct]
  simp only [healthSlots, List.forall_mem_cons, holds_plain_iff fun _ _ => readSpan_eq_ok_iff,
    holds_plain_iff fun _ _ => readNatural_eq_ok_iff]
  constructor
  · rintro ⟨known, count, delay, -⟩
    exact ⟨known, count, delay⟩
  · rintro ⟨known, count, delay⟩
    exact ⟨known, count, delay, nofun⟩

theorem readTable_tool_iff {v : ToolSettings} :
    readTable toolFields {} t = .ok v ↔ ToolGiven t v := by
  rw [toolFields_eq, readTable_eq_ok_iff lawful_toolSlots distinct]
  simp only [toolSlots, List.forall_mem_cons, holds_plain_iff fun _ _ => readText_eq_ok_iff,
    holds_option_iff fun _ _ => readText_eq_ok_iff]
  constructor
  · rintro ⟨known, program, profile, -⟩
    exact ⟨known, program, profile⟩
  · rintro ⟨known, program, profile⟩
    exact ⟨known, program, profile, nofun⟩

end

/-! ### Documents -/

/-- The keys of each section. -/
def sectionKeys : List (String × List String) :=
  [("stack", ["poll_interval"]), ("logs", ["poll_interval", "filter_pattern"]),
   ("health", ["retry_count", "retry_delay"]), ("deploy", ["program", "profile"])]

/-- Every section that a document gives is a table. -/
def SectionsAreTables (doc : Table) : Prop :=
  ∀ name ∈ sectionKeys.map Prod.fst, ∀ value, (name, value) ∈ doc → ∃ t, value = .table t

/-- A key of the document, or of a section of it, is outside the schema. -/
inductive HasUnknownKey (doc : Table) : Prop where
  | top {key : String} : key ∈ doc.keys →
      key ∉ ["queue_capacity", "stack", "logs", "health", "deploy"] → HasUnknownKey doc
  | inside {name key : String} {known : List String} {t : Table} : (name, known) ∈ sectionKeys →
      (name, .table t) ∈ doc → key ∈ t.keys → key ∉ known → HasUnknownKey doc

section
variable {doc : Table} {s : Settings} (sound : (Value.table doc).Sound)
include sound

theorem distinct_of_sound : doc.keys.Nodup := by
  cases sound with
  | table distinct _ => exact distinct

theorem distinct_of_mem {name : String} {t : Table} (there : (name, .table t) ∈ doc) :
    t.keys.Nodup := by
  cases sound with
  | table _ values => exact distinct_of_sound (values (name, .table t) there)

/-- A section that is a table gives what its table gives. -/
theorem section_iff {α : Type} {known : List (Field α)} {base x : α} {gives : Table → α → Prop}
    {name : String} (tables : ∀ value, (name, value) ∈ doc → ∃ t, value = .table t)
    (reads : ∀ t : Table, t.keys.Nodup → (readTable known base t = .ok x ↔ gives t x)) :
    ∀ value, (name, value) ∈ doc →
      (readSection known base value = .ok x ↔ IsSection gives value x) := by
  intro value there
  obtain ⟨t, rfl⟩ := tables value there
  show readTable known base t = .ok x ↔ _
  rw [reads t (distinct_of_mem sound there)]
  unfold IsSection
  simp only [Value.table.injEq, exists_eq_left']

/-- A document whose sections are tables gives just the settings that are given in it. -/
theorem ofTable_eq_ok_iff (tables : SectionsAreTables doc) : ofTable doc = .ok s ↔ Given doc s := by
  obtain ⟨stack, logs, health, deploy, -⟩ :
      (∀ value, ("stack", value) ∈ doc → ∃ t, value = .table t) ∧
      (∀ value, ("logs", value) ∈ doc → ∃ t, value = .table t) ∧
      (∀ value, ("health", value) ∈ doc → ∃ t, value = .table t) ∧
      (∀ value, ("deploy", value) ∈ doc → ∃ t, value = .table t) ∧ True := by
    simpa [SectionsAreTables, sectionKeys] using tables
  rw [ofTable, fields_eq, readTable_eq_ok_iff lawful_slots (distinct_of_sound sound)]
  simp only [slots, List.forall_mem_cons, holds_plain_iff fun _ _ => readNatural_eq_ok_iff,
    holds_plain_iff (section_iff sound stack fun _ distinct => readTable_stack_iff distinct),
    holds_plain_iff (section_iff sound logs fun _ distinct => readTable_logs_iff distinct),
    holds_plain_iff (section_iff sound health fun _ distinct => readTable_health_iff distinct),
    holds_plain_iff (section_iff sound deploy fun _ distinct => readTable_tool_iff distinct)]
  constructor
  · rintro ⟨known, capacity, stack, logs, health, deploy, -⟩
    exact ⟨known, capacity, stack, logs, health, deploy⟩
  · rintro ⟨known, capacity, stack, logs, health, deploy⟩
    exact ⟨known, capacity, stack, logs, health, deploy,
      fun _ none => absurd none List.not_mem_nil⟩

/-- A section that was read has only known keys. -/
theorem known_of_section {α : Type} {slots : List (Slot α)} {base : α} {name key : String}
    {t : Table} (lawful : Lawful slots) (there : (name, .table t) ∈ doc)
    (read : ∃ x, readSection (slots.map Slot.field) base (.table t) = .ok x)
    (given : key ∈ t.keys) : key ∈ slots.map Slot.name := by
  obtain ⟨x, read⟩ := read
  exact ((readTable_eq_ok_iff lawful (distinct_of_mem sound there)).mp read).1 key given

/-- Settings are given by no document that has an unknown key, whatever else is in it. -/
theorem ofTable_ne_ok (unknown : HasUnknownKey doc) : ofTable doc ≠ .ok s := by
  intro read
  rw [ofTable, fields_eq, readTable_eq_ok_iff lawful_slots (distinct_of_sound sound)] at read
  obtain ⟨known, holds⟩ := read
  cases unknown with
  | top there missing => exact missing (known _ there)
  | inside names there given missing =>
    simp only [slots, List.forall_mem_cons] at holds
    obtain ⟨-, stack, logs, health, deploy, -⟩ := holds
    simp only [sectionKeys, List.mem_cons, Prod.mk.injEq, List.not_mem_nil, or_false] at names
    rcases names with ⟨rfl, rfl⟩ | ⟨rfl, rfl⟩ | ⟨rfl, rfl⟩ | ⟨rfl, rfl⟩
    · obtain ⟨x, read, -⟩ := stack.given _ there
      exact missing (known_of_section sound lawful_stackSlots there ⟨x, read⟩ given)
    · obtain ⟨x, read, -⟩ := logs.given _ there
      exact missing (known_of_section sound lawful_logSlots there ⟨x, read⟩ given)
    · obtain ⟨x, read, -⟩ := health.given _ there
      exact missing (known_of_section sound lawful_healthSlots there ⟨x, read⟩ given)
    · obtain ⟨x, read, -⟩ := deploy.given _ there
      exact missing (known_of_section sound lawful_toolSlots there ⟨x, read⟩ given)

end

/-- **A file gives what it names and leaves the rest at its defaults.**  A document whose sections
are tables gives settings just if all its keys are known and every value is of its part's type, and
then every part is taken from the entry with its key alone: what else is given, and in which order,
does not count.  A document with a key outside the schema is refused whatever else is in it. -/
theorem file_gives_what_it_names {around : Surroundings} {path : Path} {text : String} {doc : Table}
    (content : around.files.contentOf around.current path = .ok (Utf8.bytes text))
    (parsed : Document.read? text = some doc) :
    (SectionsAreTables doc → ∀ s, ofFile around path = .ok s ↔ Given doc s) ∧
    (HasUnknownKey doc →
      ∃ rejection, ofFile around path = .error (.rejected path.text rejection)) := by
  have sound : (Value.table doc).Sound := Document.sound_read? parsed
  have read_doc : read text = ofTable doc := by simp only [read, parsed]
  rw [ofFile_of_text content, read_doc]
  constructor
  · intro tables s
    rw [← ofTable_eq_ok_iff sound tables]
    cases ofTable doc <;> simp
  · intro unknown
    cases refused : ofTable doc with
    | ok s => exact absurd refused (ofTable_ne_ok sound unknown)
    | error rejection => exact ⟨rejection, rfl⟩

/-- Surroundings with one file of text. -/
def besideText (text : String) : Surroundings where
  files := ⟨[(["hoist.toml"], .file (Utf8.bytes text))]⟩
  current := []
  env := []

/-- A file with one key in each of two sections. -/
def sparse : Layout where
  top := []
  sections :=
    [⟨"deploy", [("profile", .text "staging")]⟩, ⟨"stack", [("poll_interval", .text "250ms")]⟩]

/-- A file with a key that no section has. -/
def misspelt : Layout where
  top := [("queue_capacity", .number 4)]
  sections := [⟨"stack", [("poll_every", .text "1s")]⟩]

theorem distinct_sparse : sparse.Distinct where
  bare := by decide
  top := by decide
  sections := by simp [sparse]

theorem distinct_misspelt : misspelt.Distinct where
  bare := by decide
  top := by decide
  sections := by simp [misspelt]

theorem given_sparse : Given sparse.table
    { stack := { interval := Span.ofMillis 250 }, deploy := { profile := some "staging" } } := by
  have interval : Span.read? "250ms" = some (Span.ofMillis 250) := by
    have text : (Span.ofMillis 250).text = "250ms" := by decide +kernel
    rw [← text, Span.read?_text]
  have stack : StackGiven [("poll_interval", .text "250ms")] { interval := Span.ofMillis 250 } := by
    refine ⟨by decide, ?_, by decide⟩
    intro value there
    obtain rfl : value = .text "250ms" := by simpa using there
    exact ⟨"250ms", rfl, interval⟩
  have deploy : ToolGiven [("profile", .text "staging")] { profile := some "staging" } := by
    refine ⟨by decide, ⟨by simp, fun _ => rfl⟩, ?_, by decide⟩
    intro value there
    obtain rfl : value = .text "staging" := by simpa using there
    exact ⟨"staging", rfl, rfl⟩
  have doc : sparse.table = [("deploy", .table [("profile", .text "staging")]),
      ("stack", .table [("poll_interval", .text "250ms")])] := rfl
  rw [doc]
  refine ⟨by decide, ⟨by simp, fun _ => rfl⟩, ⟨?_, by decide⟩, ⟨by simp, fun _ => rfl⟩,
    ⟨by simp, fun _ => rfl⟩, ⟨?_, by decide⟩⟩
  · intro value there
    obtain rfl : value = .table [("poll_interval", .text "250ms")] := by simpa using there
    exact ⟨_, rfl, stack⟩
  · intro value there
    obtain rfl : value = .table [("profile", .text "staging")] := by simpa using there
    exact ⟨_, rfl, deploy⟩

theorem contentOf_besideText (text : String) :
    (besideText text).files.contentOf (besideText text).current ⟨"hoist.toml"⟩ =
      .ok (Utf8.bytes text) := rfl

/-- One key in each of two sections leaves all else at its defaults, and a key that is not known is
refused. -/
theorem sparse_file_keeps_defaults :
    ofFile (besideText "[deploy]\nprofile = \"staging\"\n[stack]\npoll_interval = \"250ms\"\n")
        ⟨"hoist.toml"⟩ =
      .ok { stack := { interval := Span.ofMillis 250 }, deploy := { profile := some "staging" } } ∧
    ∃ rejection,
      ofFile (besideText "queue_capacity = 4\n[stack]\npoll_every = \"1s\"\n") ⟨"hoist.toml"⟩ =
        .error (.rejected "hoist.toml" rejection) := by
  constructor
  · have parsed : Document.read?
        "[deploy]\nprofile = \"staging\"\n[stack]\npoll_interval = \"250ms\"\n" =
        some sparse.table := Document.read?_layout distinct_sparse (by decide)
    have tables : SectionsAreTables sparse.table := by
      intro name _ value there
      have entry : (name, value) ∈ sparse.sections.map Section.item := there
      obtain ⟨s, -, same⟩ := List.mem_map.mp entry
      exact ⟨s.entries.table, (congrArg Prod.snd same).symm⟩
    obtain ⟨gives, -⟩ := file_gives_what_it_names (contentOf_besideText _) parsed
    exact (gives tables _).mpr given_sparse
  · have parsed : Document.read? "queue_capacity = 4\n[stack]\npoll_every = \"1s\"\n" =
        some misspelt.table := Document.read?_layout distinct_misspelt (by decide)
    have there : ("stack", Value.table [("poll_every", .text "1s")]) ∈ misspelt.table :=
      List.mem_cons_of_mem _ List.mem_cons_self
    have names : ("stack", ["poll_interval"]) ∈ sectionKeys := List.mem_cons_self
    have unknown : HasUnknownKey misspelt.table :=
      .inside names there List.mem_cons_self (by decide)
    obtain ⟨-, refuses⟩ := file_gives_what_it_names (contentOf_besideText _) parsed
    exact refuses unknown

end DeployWatch.Settings
