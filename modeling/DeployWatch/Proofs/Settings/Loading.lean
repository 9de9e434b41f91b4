/-
# One source decides about the settings

Which file decides is said without looking at any file (`Demands`, `LeavesOpen`): the caller's
path, else the one in the environment; only if there is neither, the user's own file may, wherever
that is.  What the deciding file gives is said without looking at any other (`FileGives`): the
system refuses it, its bytes are no text, its text is no document or one that gives no settings
(`TextGives`), they have a flaw, or they are the settings.  Loading gives exactly that (`Loads`).
The main statement is `load_decided_by_one_source`.
-/

import DeployWatch.Proofs.Settings.Partial

namespace DeployWatch.Settings

open DeployWatch.Text DeployWatch.Time DeployWatch.Toml

/-! ### Settings that can be used -/

/-- What is wrong with settings that have a flaw. -/
def Flaw.holds : Flaw → Settings → Bool
  | .noCapacity, s => s.capacity == 0
  | .stackSpins, s => s.stack.interval.isZero
  | .logsSpin, s => s.logs.interval.isZero
  | .noProgram, s => isBlankText s.deploy.program

/-- The flaws in the order in which they are looked for. -/
def Flaw.all : List Flaw := [.noCapacity, .stackSpins, .logsSpin, .noProgram]

/-- The first flaw of settings, if they have any. -/
def firstFlaw? (s : Settings) : Option Flaw := Flaw.all.find? (·.holds s)

/-- Settings with which every watch can run. -/
structure Usable (s : Settings) : Prop where
  capacity : 1 ≤ s.capacity
  stack : s.stack.interval ≠ Span.zero
  logs : s.logs.interval ≠ Span.zero
  /-- Some character of the program's name is not white space. -/
  program : ∃ c ∈ s.deploy.program.toList, ¬ isBlank c

theorem isZero_eq_true_iff {span : Span} : span.isZero = true ↔ span = Span.zero := by
  cases span
  simp [Span.isZero, Span.zero]

theorem usable_iff {s : Settings} : Usable s ↔ s.firstFlaw? = none := by
  simp only [firstFlaw?, Flaw.all, List.find?_eq_none, List.forall_mem_cons, Flaw.holds, beq_iff_eq,
    isZero_eq_true_iff, isBlankText, List.all_eq_true]
  constructor
  · rintro ⟨capacity, stack, logs, program⟩
    exact ⟨Nat.ne_of_gt capacity, stack, logs, by simpa using program, nofun⟩
  · rintro ⟨capacity, stack, logs, program, -⟩
    exact ⟨Nat.pos_of_ne_zero capacity, stack, logs, by simpa using program⟩

theorem usable_defaults : Usable {} where
  capacity := by decide
  stack := by decide
  logs := by decide
  program := ⟨'c', by decide, by decide⟩

/-- Settings are refused for their first flaw. -/
theorem validate_eq (s : Settings) :
    s.validate = match s.firstFlaw? with
      | none => .ok ()
      | some flaw => .error flaw := by
  unfold validate firstFlaw? Flaw.all
  simp only [List.find?_cons, List.find?_nil, Flaw.holds]
  cases capacity : s.capacity == 0
  · rw [if_neg (by simpa using capacity)]
    cases s.stack.interval.isZero
    · cases s.logs.interval.isZero
      · cases isBlankText s.deploy.program <;> rfl
      · rfl
    · rfl
  · rw [if_pos (by simpa using capacity)]

/-! ### What a text gives -/

/-- What a document gives.  If its sections are tables it gives the settings that are given in it,
or none. -/
inductive DocumentGives (doc : Table) : Except Rejection Settings → Prop where
  | settings {s} : SectionsAreTables doc → Given doc s → DocumentGives doc (.ok s)
  | rejected {rejection} : SectionsAreTables doc → (∀ s, ¬ Given doc s) →
      ofTable doc = .error rejection → DocumentGives doc (.error rejection)
  /-- A section is written in another way. -/
  | unusual {result} : ¬ SectionsAreTables doc → ofTable doc = result → DocumentGives doc result

/-- What a text gives. -/
inductive TextGives (text : String) : Except Rejection Settings → Prop where
  /-- It is no document. -/
  | malformed : Document.read? text = none → TextGives text (.error .malformed)
  | document {doc result} : Document.read? text = some doc → DocumentGives doc result →
      TextGives text result

theorem ofTable_eq_iff {doc : Table} {result : Except Rejection Settings}
    (sound : (Value.table doc).Sound) : ofTable doc = result ↔ DocumentGives doc result := by
  by_cases tables : SectionsAreTables doc
  · constructor
    · rintro rfl
      cases read : ofTable doc with
      | ok s => exact .settings tables ((ofTable_eq_ok_iff sound tables).mp read)
      | error rejection =>
        refine .rejected tables (fun s given => ?_) read
        rw [← ofTable_eq_ok_iff sound tables, read] at given
        cases given
    · intro gives
      cases gives with
      | settings _ given => exact (ofTable_eq_ok_iff sound tables).mpr given
      | rejected _ _ read => exact read
      | unusual other => exact absurd tables other
  · constructor
    · exact .unusual tables
    · intro gives
      cases gives with
      | settings tables' | rejected tables' => exact absurd tables' tables
      | unusual _ read => exact read

/-- Reading a text gives what the text gives. -/
theorem read_eq_iff {text : String} {result : Except Rejection Settings} :
    read text = result ↔ TextGives text result := by
  cases parsed : Document.read? text with
  | none =>
    rw [read, parsed]
    constructor
    · rintro rfl
      exact .malformed parsed
    · intro gives
      cases gives with
      | malformed => rfl
      | document parsed' =>
        rw [parsed] at parsed'
        cases parsed'
  | some doc =>
    have sound : (Value.table doc).Sound := Document.sound_read? parsed
    have read_doc : read text = ofTable doc := by simp only [read, parsed]
    rw [read_doc, ofTable_eq_iff sound]
    constructor
    · exact .document parsed
    · intro gives
      cases gives with
      | malformed none =>
        rw [parsed] at none
        cases none
      | document parsed' gives =>
        rw [parsed, Option.some.injEq] at parsed'
        exact parsed' ▸ gives

/-! ### What a file gives -/

/-- What the file under a path gives, whatever other files there are. -/
inductive FileGives (around : Surroundings) (path : Path) :
    Except SettingsFault Settings → Prop where
  /-- The system refuses to read it. -/
  | refused {e} : around.files.contentOf around.current path = .error e →
      FileGives around path (.error (.unreadable path.text e.text))
  /-- Its bytes are no text. -/
  | notText {content} : around.files.contentOf around.current path = .ok content →
      (∀ cs, content ≠ Utf8.encode cs) →
      FileGives around path (.error (.unreadable path.text notTextReason))
  /-- Its text gives no settings. -/
  | rejected {text rejection} :
      around.files.contentOf around.current path = .ok (Utf8.bytes text) →
      TextGives text (.error rejection) →
      FileGives around path (.error (.rejected path.text rejection))
  /-- Its settings have a flaw. -/
  | flawed {text settings flaw} :
      around.files.contentOf around.current path = .ok (Utf8.bytes text) →
      TextGives text (.ok settings) → settings.firstFlaw? = some flaw →
      FileGives around path (.error (.invalid flaw.message))
  /-- Its settings can be used. -/
  | usable {text settings} :
      around.files.contentOf around.current path = .ok (Utf8.bytes text) →
      TextGives text (.ok settings) → Usable settings → FileGives around path (.ok settings)

theorem accept_of_usable {s : Settings} (usable : Usable s) : accept s = .ok s := by
  rw [accept, validate_eq, usable_iff.mp usable]

theorem accept_of_flaw {s : Settings} {flaw : Flaw} (first : s.firstFlaw? = some flaw) :
    accept s = .error (.invalid flaw.message) := by
  rw [accept, validate_eq, first]

section
variable {around : Surroundings} {path : Path}

theorem ofFile_of_malformed {content : List UInt8}
    (found : around.files.contentOf around.current path = .ok content)
    (malformed : Utf8.decode? content = none) :
    ofFile around path = .error (.unreadable path.text notTextReason) := by
  unfold ofFile
  rw [found]
  simp only [malformed]

/-- Judging the settings of a file gives what the file gives. -/
theorem ofFile_accept_eq_iff {result : Except SettingsFault Settings} :
    ofFile around path >>= accept = result ↔ FileGives around path result := by
  constructor
  · rintro rfl
    cases found : around.files.contentOf around.current path with
    | error e =>
      rw [ofFile, found]
      exact .refused found
    | ok content =>
      cases decoded : Utf8.decode? content with
      | none =>
        rw [ofFile_of_malformed found decoded]
        refine .notText found fun cs eq => ?_
        rw [eq, Utf8.decode?_encode] at decoded
        cases decoded
      | some cs =>
        have text : around.files.contentOf around.current path =
            .ok (Utf8.bytes (String.ofList cs)) := by
          rw [found, Utf8.decode?_eq_some_iff.mp decoded, Utf8.bytes, String.toList_ofList]
        rw [ofFile_of_text text]
        cases given : read (String.ofList cs) with
        | error rejection => exact .rejected text (read_eq_iff.mp given)
        | ok settings =>
          change FileGives around path (accept settings)
          cases first : settings.firstFlaw? with
          | none =>
            have usable := usable_iff.mpr first
            exact accept_of_usable usable ▸ .usable text (read_eq_iff.mp given) usable
          | some flaw => exact accept_of_flaw first ▸ .flawed text (read_eq_iff.mp given) first
  · intro gives
    cases gives with
    | refused found => rw [ofFile, found]; rfl
    | @notText content found noText =>
      have malformed : Utf8.decode? content = none :=
        Option.eq_none_iff_forall_ne_some.mpr fun cs decoded =>
          noText cs (Utf8.decode?_eq_some_iff.mp decoded)
      rw [ofFile_of_malformed found malformed]
      rfl
    | rejected found given => rw [ofFile_of_text found, read_eq_iff.mpr given]; rfl
    | flawed found given first =>
      rw [ofFile_of_text found, read_eq_iff.mpr given]
      exact accept_of_flaw first
    | usable found given usable =>
      rw [ofFile_of_text found, read_eq_iff.mpr given]
      exact accept_of_usable usable

/-- A file gives no other settings than usable ones. -/
theorem FileGives.usable_of_ok {settings : Settings}
    (gives : FileGives around path (.ok settings)) : Usable settings := by
  cases gives with
  | usable _ _ usable => exact usable

end

/-! ### Which file decides -/

/-- The file under a path was asked for: by the caller, or, if the caller names none, in the
environment. -/
inductive Demands (env : List (String × String)) : Option Path → Path → Prop where
  | caller {path} : Demands env (some path) path
  | environment {path : Path} : env.lookup pathVariable = some path.text → Demands env none path

/-- No file was asked for. -/
structure LeavesOpen (env : List (String × String)) (given : Option Path) : Prop where
  caller : given = none
  environment : env.lookup pathVariable = none

theorem source_eq_required_iff {env : List (String × String)} {given own : Option Path}
    {path : Path} : source given env own = .required path ↔ Demands env given path := by
  constructor
  · intro required
    unfold source at required
    split at required
    · cases required
      exact .caller
    · split at required
      next named =>
        cases required
        exact .environment named
      next => split at required <;> cases required
  · intro demands
    cases demands with
    | caller => rfl
    | environment named => simp only [source, named]

theorem source_of_leavesOpen {env : List (String × String)} {given own : Option Path}
    (leavesOpen : LeavesOpen env given) :
    source given env own = match own with
      | some path => .optional path
      | none => .defaults := by
  obtain ⟨rfl, unset⟩ := leavesOpen
  cases own <;> simp only [source, unset]

/-- Either exactly one file was asked for, or none. -/
theorem demands_or_leavesOpen (env : List (String × String)) (given : Option Path) :
    (∃ path, Demands env given path) ∨ LeavesOpen env given := by
  cases given with
  | some path => exact .inl ⟨path, .caller⟩
  | none =>
    cases named : env.lookup pathVariable with
    | some text => exact .inl ⟨⟨text⟩, .environment named⟩
    | none => exact .inr ⟨rfl, named⟩

/-- What loading gives, for a user whose own settings file is at some place. -/
inductive Loads (around : Surroundings) (given own : Option Path) :
    Except SettingsFault Settings → Prop where
  /-- The file that was asked for is not there. -/
  | missing {path} : Demands around.env given path →
      around.files.existsAt around.current path = false →
      Loads around given own (.error (.notFound path.text))
  /-- The file that was asked for is there, and decides. -/
  | demanded {path result} : Demands around.env given path →
      around.files.existsAt around.current path = true →
      FileGives around path result → Loads around given own result
  /-- No file was asked for, and the user has none. -/
  | defaults : LeavesOpen around.env given →
      (∀ path, own = some path → around.files.existsAt around.current path = false) →
      Loads around given own (.ok {})
  /-- No file was asked for, and the user's own decides. -/
  | own {path result} : LeavesOpen around.env given → own = some path →
      around.files.existsAt around.current path = true →
      FileGives around path result → Loads around given own result

variable {around : Surroundings} {given own own' : Option Path} {path : Path}
  {result : Except SettingsFault Settings}

theorem load_of_demands (demands : Demands around.env given path) :
    load around given own =
      if around.files.existsAt around.current path then ofFile around path >>= accept
      else .error (.notFound path.text) := by
  rw [load, source_eq_required_iff.mpr demands, ofSource]
  split <;> rfl

theorem load_of_leavesOpen (leavesOpen : LeavesOpen around.env given) :
    load around given own = match own with
      | some path => if around.files.existsAt around.current path then ofFile around path >>= accept
        else .ok {}
      | none => .ok {} := by
  have defaults : accept {} = .ok {} := accept_of_usable usable_defaults
  rw [load, source_of_leavesOpen leavesOpen]
  cases own with
  | none => exact defaults
  | some path =>
    simp only [ofSource]
    split
    · rfl
    · exact defaults

theorem loads_load (around : Surroundings) (given own : Option Path) :
    Loads around given own (load around given own) := by
  obtain ⟨path, demands⟩ | leavesOpen := demands_or_leavesOpen around.env given
  · rw [load_of_demands demands]
    split
    next there => exact .demanded demands there (ofFile_accept_eq_iff.mp rfl)
    next missing => exact .missing demands (by simpa using missing)
  · rw [load_of_leavesOpen leavesOpen]
    cases own with
    | none => exact .defaults leavesOpen (by simp)
    | some path =>
      simp only
      split
      next there => exact .own leavesOpen rfl there (ofFile_accept_eq_iff.mp rfl)
      next missing => exact .defaults leavesOpen (by simpa using missing)

theorem load_of_loads (loads : Loads around given own result) : load around given own = result := by
  cases loads with
  | missing demands missing => rw [load_of_demands demands, missing]; rfl
  | demanded demands there gives =>
    rw [load_of_demands demands, if_pos there]
    exact ofFile_accept_eq_iff.mpr gives
  | defaults leavesOpen missing =>
    rw [load_of_leavesOpen leavesOpen]
    cases own with
    | none => rfl
    | some path => simp [missing path rfl]
  | own leavesOpen place there gives =>
    rw [load_of_leavesOpen leavesOpen, place]
    simp only [if_pos there]
    exact ofFile_accept_eq_iff.mpr gives

/-- Only usable settings are loaded. -/
theorem Loads.usable_of_ok {settings : Settings} (loads : Loads around given own (.ok settings)) :
    Usable settings := by
  cases loads with
  | demanded _ _ gives => exact gives.usable_of_ok
  | defaults => exact usable_defaults
  | own _ _ _ gives => exact gives.usable_of_ok

/-! ### Nothing else decides -/

/-- Two surroundings in which a path leads to the same. -/
structure AgreeAt (path : Path) (around around' : Surroundings) : Prop where
  exists_eq :
    around.files.existsAt around.current path = around'.files.existsAt around'.current path
  content_eq :
    around.files.contentOf around.current path = around'.files.contentOf around'.current path

theorem AgreeAt.ofFile_eq {around' : Surroundings} (agree : AgreeAt path around around') :
    ofFile around path = ofFile around' path := by
  rw [ofFile, ofFile, agree.content_eq]

/-- A file that was asked for gives the same whatever else there is: the other files, the rest
of the environment and the user's own settings do not count. -/
theorem load_congr_of_demands {around' : Surroundings} (demands : Demands around.env given path)
    (demands' : Demands around'.env given path) (agree : AgreeAt path around around') :
    load around given own = load around' given own' := by
  rw [load_of_demands demands, load_of_demands demands', agree.exists_eq, agree.ofFile_eq]

/-- One source decides about the settings, and lets only usable ones through. -/
structure DecidedByOneSource (around : Surroundings) (given own : Option Path) : Prop where
  /-- Loading gives what the one source gives. -/
  loads_iff : ∀ result, load around given own = result ↔ Loads around given own result
  usable_of_load : ∀ settings, load around given own = .ok settings → Usable settings
  /-- Beside a file that was asked for, no other source counts. -/
  load_congr : ∀ path around' own', Demands around.env given path → Demands around'.env given path →
    AgreeAt path around around' → load around given own = load around' given own'

/-- Whichever files there are, whatever the environment says, whether or not the caller names a
file, and wherever the user's own is: one source decides about the settings. -/
theorem load_decided_by_one_source (around : Surroundings) (given own : Option Path) :
    DecidedByOneSource around given own where
  loads_iff result := by
    constructor
    · rintro rfl
      exact loads_load around given own
    · exact load_of_loads
  usable_of_load settings loaded := by
    have loads : Loads around given own (.ok settings) := loaded ▸ loads_load around given own
    exact loads.usable_of_ok
  load_congr path around' own' demands demands' agree := by
    show load around given own = load around' given own'
    exact load_congr_of_demands demands demands' agree

end DeployWatch.Settings
