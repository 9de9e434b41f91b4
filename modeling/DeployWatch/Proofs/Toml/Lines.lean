/-
# Lines of a document

The lines with which a table of texts and numbers can be written: a header, and an assignment to
a bare key.  Each is read as the statement it stands for (`readStatement_body`), and any number of
them one after the other (`readStatements_lines`).
-/

import DeployWatch.Proofs.Text.Decimal
import DeployWatch.Proofs.Text.Runs
import DeployWatch.Proofs.Toml.Strings
import DeployWatch.Toml.Document

namespace DeployWatch.Toml

open DeployWatch.Text

/-! ### Bare keys -/

/-- A key that can be written without quotes. -/
structure IsBare (key : String) : Prop where
  notEmpty : key.toList ≠ []
  plain : key.toList.all isBareKeyChar

instance (key : String) : Decidable (IsBare key) :=
  decidable_of_iff (key.toList ≠ [] ∧ key.toList.all isBareKeyChar)
    ⟨fun h => ⟨h.1, h.2⟩, fun h => ⟨h.notEmpty, h.plain⟩⟩

theorem IsBare.exists_cons {key : String} (bare : IsBare key) :
    ∃ c cs, key.toList = c :: cs ∧ isBareKeyChar c := by
  obtain ⟨c, cs, eq⟩ := List.exists_cons_of_ne_nil bare.notEmpty
  exact ⟨c, cs, eq, List.all_eq_true.mp bare.plain c (eq ▸ List.mem_cons_self)⟩

section
variable {key : String} {rest : List Char}

theorem readKeyPart_bare (bare : IsBare key)
    (stops : ∀ c ∈ rest.head?, isBareKeyChar c = false) :
    readKeyPart (key.toList ++ rest) = some (key, rest) := by
  have run : LeadingRun isBareKeyChar key.toList rest := ⟨List.all_eq_true.mp bare.plain, stops⟩
  obtain ⟨c, cs, eq, plain⟩ := bare.exists_cons
  unfold readKeyPart
  split
  next quoted =>
    rw [eq] at quoted
    exact absurd (List.cons.inj quoted).1 (ne_of_kind plain (by decide))
  next quoted =>
    rw [eq] at quoted
    exact absurd (List.cons.inj quoted).1 (ne_of_kind plain (by decide))
  next =>
    have notEmpty : ¬ key.toList.isEmpty := by simpa using bare.notEmpty
    rw [run.takeWhile_append, run.dropWhile_append, if_neg notEmpty, String.ofList_toList]

/-- A bare key that no dot follows is read with the white space after it. -/
theorem readKey_bare (bare : IsBare key) (stops : ∀ c ∈ rest.head?, isBareKeyChar c = false)
    (noDot : (skipSpace rest).head? ≠ some '.') :
    readKey (key.toList ++ rest) = some (⟨[], key⟩, skipSpace rest) := by
  have parts (fuel : Nat) : readParts fuel (key.toList ++ rest) = some ([key], skipSpace rest) := by
    rw [readParts.eq_def, readKeyPart_bare bare stops]
    simp only
    split
    next dotted => exact absurd (dotted ▸ rfl) noDot
    next => rfl
  rw [readKey, parts]
  rfl

end

/-! ### Texts and numbers -/

/-- A value that is written on one line. -/
inductive Scalar where
  | text (content : String)
  | number (n : Nat)

namespace Scalar

/-- What is written. -/
def chars : Scalar → List Char
  | text content => writeBasic content.toList
  | number n => Decimal.digits n

/-- What is meant. -/
def value : Scalar → Value
  | text content => .text content
  | number n => .integer n

end Scalar

/-- Digits without underscores among them are kept. -/
theorem separated?_digits {ds : List Char} (notEmpty : ds ≠ []) (digits : ∀ c ∈ ds, c.isDigit) :
    separated? Char.isDigit ds = some ds := by
  induction ds with
  | nil => exact absurd rfl notEmpty
  | cons c ds ih =>
    obtain ⟨digit, digits⟩ := List.forall_mem_cons.mp digits
    cases ds with
    | nil => rw [separated?, if_pos digit]
    | cons d ds =>
      have underscore : d ≠ '_' := ne_of_kind (digits d List.mem_cons_self) (by decide)
      rw [separated?, if_pos digit, ih (List.cons_ne_nil d ds) digits]
      · rfl
      · exact nofun
      · exact fun _ eq => underscore (List.cons.inj eq).1

/-- Only zero is written with a leading zero. -/
theorem eq_zero_of_head?_digits {n : Nat} (zero : (Decimal.digits n).head? = some '0') : n = 0 := by
  induction n using Nat.strongRecOn with
  | ind n ih =>
    by_cases small : n < 10
    · have only : ∀ d < 10, d.digitChar = '0' → d = 0 := by decide
      rw [Decimal.digits, Nat.toDigits_of_lt_base small] at zero
      exact only n small (Option.some.inj zero)
    · -- a number of several digits begins like its tenth, which is not zero
      have front := Nat.toDigits_of_base_le (by decide) (Nat.le_of_not_lt small)
      rw [Decimal.digits, front, List.head?_append_of_ne_nil _ Nat.toDigits_ne_nil] at zero
      have := ih (n / 10) (by omega) zero
      omega

theorem decimal?_digits (n : Nat) : decimal? (Decimal.digits n) = some (Decimal.digits n) := by
  have plain := separated?_digits (Decimal.digits_ne_nil n) fun _ => Decimal.isDigit_of_mem_digits
  rw [decimal?, plain, Option.bind_eq_bind, Option.bind_some]
  split
  next leading =>
    -- a leading zero is the only digit
    rw [Bool.and_eq_true, decide_eq_true_eq, decide_eq_true_eq] at leading
    obtain rfl := eq_zero_of_head?_digits leading.1
    exact absurd rfl leading.2
  next => rfl

theorem integer?_digits (n : Nat) : integer? (Decimal.digits n) = some (n : Int) := by
  have read : (decimal? (Decimal.digits n)).map (fun ds => Int.ofNat (Decimal.value ds)) =
      some (n : Int) := by
    rw [decimal?_digits, Option.map_some, Decimal.value_digits]
    rfl
  have digit {c : Char} (mem : c ∈ Decimal.digits n) : c.isDigit := Decimal.isDigit_of_mem_digits mem
  unfold integer?
  split
  next eq => exact absurd (digit (eq ▸ List.mem_cons_of_mem _ List.mem_cons_self)) (by decide)
  next eq => exact absurd (digit (eq ▸ List.mem_cons_of_mem _ List.mem_cons_self)) (by decide)
  next eq => exact absurd (digit (eq ▸ List.mem_cons_of_mem _ List.mem_cons_self)) (by decide)
  next eq => exact absurd (digit (eq ▸ List.mem_cons_self)) (by decide)
  next eq => exact absurd (digit (eq ▸ List.mem_cons_self)) (by decide)
  next => exact read

theorem atom?_digits (n : Nat) : atom? (Decimal.digits n) = some (.integer n) := by
  have digit {c : Char} (mem : c ∈ Decimal.digits n) : c.isDigit := Decimal.isDigit_of_mem_digits mem
  have isTrue : Decimal.digits n ≠ "true".toList := fun eq =>
    absurd (digit (c := 't') (by rw [eq]; decide)) (by decide)
  have isFalse : Decimal.digits n ≠ "false".toList := fun eq =>
    absurd (digit (c := 'f') (by rw [eq]; decide)) (by decide)
  rw [atom?, if_neg isTrue, if_neg isFalse, integer?_digits]

theorem readAtom_digits (n : Nat) (rest : List Char) :
    readAtom (Decimal.digits n ++ '\n' :: rest) = some (.integer n, '\n' :: rest) := by
  have run : LeadingRun isAtomChar (Decimal.digits n) ('\n' :: rest) := by
    constructor
    · intro c mem
      have digit := Decimal.isDigit_of_mem_digits mem
      simp [isAtomChar, Char.isAlphanum, digit]
    · intro c head
      obtain rfl : '\n' = c := by simpa using head
      decide
  rw [readAtom, run.takeWhile_append, run.dropWhile_append]
  -- no space follows, so a date could not take a time with it
  simp only [atom?_digits, Option.map_some]
  split
  next eq => exact absurd (List.cons.inj eq).1 (by decide)
  next => rfl

/-- A text or a number is read up to the end of its line. -/
theorem readValue_chars (depth : Nat) (scalar : Scalar) (rest : List Char) :
    readValue depth (scalar.chars ++ '\n' :: rest) = some (scalar.value, '\n' :: rest) := by
  cases scalar with
  | text content =>
    have closed : ('\n' :: rest).head? ≠ some '"' := by simp
    have read := readString_writeBasic content.toList closed
    rw [String.ofList_toList, writeBasic, List.cons_append, List.cons_append] at read
    rw [Scalar.chars, writeBasic, List.cons_append, List.cons_append, readValue, read]
    rfl
  | number n =>
    obtain ⟨c, cs, eq⟩ := List.exists_cons_of_ne_nil (Decimal.digits_ne_nil n)
    have digit : c.isDigit := Decimal.isDigit_of_mem_digits (eq ▸ List.mem_cons_self)
    have read := readAtom_digits n rest
    rw [Scalar.chars, Scalar.value]
    rw [eq, List.cons_append] at read ⊢
    rw [readValue, read]
    · exact fun _ eq => ne_of_kind digit (by decide) (List.cons.inj eq).1
    · exact fun _ eq => ne_of_kind digit (by decide) (List.cons.inj eq).1
    · exact fun _ eq => ne_of_kind digit (by decide) (List.cons.inj eq).1
    · exact fun _ eq => ne_of_kind digit (by decide) (List.cons.inj eq).1

theorem Scalar.exists_cons (scalar : Scalar) : ∃ c cs, scalar.chars = c :: cs ∧ ¬ isLineSpace c := by
  cases scalar with
  | text content => exact ⟨'"', content.toList.flatMap writeChar ++ ['"'], rfl, by decide⟩
  | number n =>
    obtain ⟨c, cs, eq⟩ := List.exists_cons_of_ne_nil (Decimal.digits_ne_nil n)
    refine ⟨c, cs, eq, fun space => ?_⟩
    have digit : c.isDigit := Decimal.isDigit_of_mem_digits (eq ▸ List.mem_cons_self)
    rw [isLineSpace, Bool.or_eq_true, decide_eq_true_eq, decide_eq_true_eq] at space
    rcases space with rfl | rfl
    · exact absurd digit (by decide)
    · exact absurd digit (by decide)

/-! ### Lines -/

/-- A line that a document is written with. -/
inductive Line where
  | header (name : String)
  | entry (key : String) (scalar : Scalar)

namespace Line

/-- The key on the line. -/
def key : Line → String
  | header name => name
  | entry key _ => key

/-- The line without its end. -/
def body : Line → List Char
  | header name => '[' :: name.toList ++ [']']
  | entry key scalar => key.toList ++ " = ".toList ++ scalar.chars

/-- The line with its end. -/
def chars (line : Line) : List Char := line.body ++ ['\n']

/-- What the line stands for. -/
def statement : Line → Statement
  | header name => .header ⟨[], name⟩
  | entry key scalar => .assignment ⟨[], key⟩ scalar.value

/-- The characters with which a line can begin. -/
def isOpening (c : Char) : Bool := c = '[' || isBareKeyChar c

theorem exists_cons {line : Line} (bare : IsBare line.key) :
    ∃ c cs, line.body = c :: cs ∧ isOpening c := by
  cases line with
  | header name => exact ⟨'[', name.toList ++ [']'], rfl, by decide⟩
  | entry key scalar =>
    have bare : IsBare key := bare
    obtain ⟨c, cs, begins, plain⟩ := bare.exists_cons
    exact ⟨c, cs ++ " = ".toList ++ scalar.chars, by simp [body, begins], by simp [isOpening, plain]⟩

end Line

/-- A character with which a line can begin is neither white space nor a line end nor the mark of
a comment. -/
theorem skipGap_of_opening {c : Char} {rest : List Char} (opening : Line.isOpening c) :
    skipGap (c :: rest) = some (c :: rest) := by
  have space : ¬ isLineSpace c := by
    have blank : c ≠ ' ' := ne_of_kind opening (by decide)
    have tab : c ≠ '\t' := ne_of_kind opening (by decide)
    simp [isLineSpace, blank, tab]
  have skipped : skipCommentHere (skipSpace (c :: rest)) = some (c :: rest) := by
    rw [skipSpace, List.dropWhile_cons_of_neg space, skipCommentHere]
    exact fun _ eq => ne_of_kind opening (by decide) (List.cons.inj eq).1
  rw [skipGap, skipLines.eq_def, skipped]
  simp only
  split
  next eq _ => exact absurd (List.cons.inj eq).1 (ne_of_kind opening (by decide))
  next eq _ => exact absurd (List.cons.inj eq).1 (ne_of_kind opening (by decide))
  next => rfl

/-- The first character of a bare key is not skipped as white space. -/
theorem skipSpace_bare {key : String} (bare : IsBare key) (rest : List Char) :
    skipSpace (key.toList ++ rest) = key.toList ++ rest := by
  obtain ⟨c, cs, eq, plain⟩ := bare.exists_cons
  have blank : c ≠ ' ' := ne_of_kind plain (by decide)
  have tab : c ≠ '\t' := ne_of_kind plain (by decide)
  rw [eq, List.cons_append, skipSpace, List.dropWhile_cons_of_neg (by simp [isLineSpace, blank, tab])]

theorem readStatement_header {name : String} (bare : IsBare name) (rest : List Char) :
    readStatement ('[' :: (name.toList ++ ']' :: rest)) = some (.header ⟨[], name⟩, rest) := by
  obtain ⟨c, cs, eq, plain⟩ := bare.exists_cons
  have one : c ≠ '[' := ne_of_kind plain (by decide)
  have stops : ∀ c ∈ (']' :: rest).head?, isBareKeyChar c = false := by
    intro c head
    obtain rfl : ']' = c := by simpa using head
    decide
  have closed : skipSpace (']' :: rest) = ']' :: rest := rfl
  have read : readKey (skipSpace (name.toList ++ ']' :: rest)) = some (⟨[], name⟩, ']' :: rest) := by
    rw [skipSpace_bare bare, readKey_bare bare stops (by rw [closed]; simp), closed]
  rw [readStatement, read]
  · rfl
  · intro after twice
    rw [eq] at twice
    exact one (List.cons.inj twice).1

/-- An assignment to a bare key is read up to the end of its line. -/
theorem readAssignment_entry (depth : Nat) {key : String} (bare : IsBare key) (scalar : Scalar)
    (rest : List Char) :
    readAssignment (readValue depth)
        (key.toList ++ (" = ".toList ++ (scalar.chars ++ '\n' :: rest))) =
      some ((⟨[], key⟩, scalar.value), '\n' :: rest) := by
  have spaced : " = ".toList = [' ', '=', ' '] := by decide
  have stops : ∀ c ∈ (" = ".toList ++ (scalar.chars ++ '\n' :: rest)).head?,
      isBareKeyChar c = false := by
    intro c head
    obtain rfl : ' ' = c := by simpa [spaced] using head
    decide
  have sign : skipSpace (" = ".toList ++ (scalar.chars ++ '\n' :: rest)) =
      '=' :: ' ' :: (scalar.chars ++ '\n' :: rest) := by
    rw [spaced]
    rfl
  have read := readKey_bare bare stops (by rw [sign]; simp)
  have value : skipSpace (' ' :: (scalar.chars ++ '\n' :: rest)) = scalar.chars ++ '\n' :: rest := by
    obtain ⟨c, cs, eq, visible⟩ := scalar.exists_cons
    rw [eq, List.cons_append, skipSpace, List.dropWhile_cons_of_pos (by decide),
      List.dropWhile_cons_of_neg visible]
  rw [readAssignment, read, sign]
  simp only [Option.bind_eq_bind, Option.bind_some, value, readValue_chars, Option.map_some]

/-- A line is read as its statement. -/
theorem readStatement_body {line : Line} (bare : IsBare line.key) (rest : List Char) :
    readStatement (line.body ++ '\n' :: rest) = some (line.statement, '\n' :: rest) := by
  cases line with
  | header name =>
    rw [Line.body, List.cons_append, List.cons_append, List.append_assoc, List.singleton_append]
    exact readStatement_header bare ('\n' :: rest)
  | entry key scalar =>
    have bare : IsBare key := bare
    have read := readAssignment_entry maxDepth bare scalar rest
    obtain ⟨c, cs, begins, plain⟩ := bare.exists_cons
    have one : c ≠ '[' := ne_of_kind plain (by decide)
    rw [Line.body, List.append_assoc, List.append_assoc, Line.statement]
    rw [begins, List.cons_append] at read ⊢
    rw [readStatement, read]
    · rfl
    · exact fun _ twice => one (List.cons.inj twice).1
    · exact fun _ once => one (List.cons.inj once).1

/-- Lines are read one after the other as their statements. -/
theorem readStatements_lines {lines : List Line} (bare : ∀ line ∈ lines, IsBare line.key)
    {fuel : Nat} (enough : lines.length ≤ fuel) :
    readStatements fuel (lines.flatMap Line.chars) = some (lines.map Line.statement) := by
  induction lines generalizing fuel with
  | nil =>
    have nothing : skipGap [] = some [] := by decide
    rw [List.flatMap_nil, readStatements.eq_def, nothing]
    rfl
  | cons line lines ih =>
    obtain ⟨here, bare⟩ := List.forall_mem_cons.mp bare
    obtain ⟨fuel, rfl⟩ := Nat.exists_eq_add_one_of_ne_zero
      (Nat.ne_of_gt (Nat.lt_of_lt_of_le (Nat.succ_pos _) enough))
    have rest := ih bare (Nat.le_of_succ_le_succ enough)
    obtain ⟨c, cs, eq, opening⟩ := Line.exists_cons here
    have read := readStatement_body here (lines.flatMap Line.chars)
    have ended : endLine ('\n' :: lines.flatMap Line.chars) = some (lines.flatMap Line.chars) := rfl
    rw [List.flatMap_cons, Line.chars, List.append_assoc, List.singleton_append]
    rw [eq, List.cons_append] at read ⊢
    rw [readStatements.eq_def, skipGap_of_opening opening]
    simp only [read, ended, Option.bind_eq_bind, Option.bind_some, rest]
    rfl

end DeployWatch.Toml
