/-
# The lines of a pipe are the lines of its text

A text splits into lines in one way: after each newline, which is dropped together with one
carriage return before it, and what follows the last newline is a line if there is anything
(`SplitsInto`).  The reader cuts bytes and makes text of every piece, but the result is the same as
cutting the text of everything at once, because the lossy reading of bytes may be cut after any
newline (`decode_pieces`): no malformed sequence reaches across one.

How the content is cut into reads does not matter (`ofReads_eq_ofBytes`).  The main statement is
`ofReads_loses_nothing`.
-/

import DeployWatch.Proofs.Text.Pieces
import DeployWatch.Proofs.Text.Runs
import DeployWatch.Proofs.Text.Utf8
import DeployWatch.Text.Lines

namespace DeployWatch.Text.Lines

open Pieces

/-! ### Texts and their lines -/

/-- A line without one carriage return at its end. -/
def withoutReturn (line : List Char) : List Char :=
  if line.getLast? = some '\r' then line.dropLast else line

/-- The lines of a text. -/
inductive SplitsInto : List Char → List (List Char) → Prop where
  | nothing : SplitsInto [] []
  /-- What follows the last newline is kept whole. -/
  | last {line} : line ≠ [] → '\n' ∉ line → SplitsInto line [line]
  | line {line rest lines} : '\n' ∉ line → SplitsInto rest lines →
      SplitsInto (line ++ '\n' :: rest) (withoutReturn line :: lines)

namespace SplitsInto

variable {text : List Char} {lines lines' : List (List Char)}

/-- A text has no other lines. -/
theorem unique (h : SplitsInto text lines) (h' : SplitsInto text lines') : lines = lines' := by
  induction h generalizing lines' with
  | nothing =>
    generalize eq : ([] : List Char) = text at h'
    cases h' with
    | nothing => rfl
    | last ne => exact absurd eq.symm ne
    | line => simp at eq
  | @last line ne free =>
    generalize eq : line = text at h'
    cases h' with
    | nothing => exact absurd eq ne
    | last => rfl
    | line => exact absurd (eq ▸ by simp) free
  | @line line rest lines free split ih =>
    generalize eq : line ++ '\n' :: rest = text at h'
    cases h' with
    | nothing => simp at eq
    | last ne free' => exact absurd (eq ▸ by simp) free'
    | line free' split' =>
      obtain ⟨rfl, tail⟩ := (leadingRun_mark free rest).unique (leadingRun_mark free' _) eq
      obtain rfl := (List.cons.inj tail).2
      rw [ih split']

theorem eq_nil (h : SplitsInto text []) : text = [] := by
  cases h
  rfl

/-- Where no carriage return was dropped, newlines between the lines and the last newline, if
there is one, give the text again. -/
theorem rejoined (h : SplitsInto text lines) (plain : ¬['\r', '\n'] <:+: text) :
    text = List.intercalate ['\n'] lines ++ if text.getLast? = some '\n' then ['\n'] else [] := by
  induction h with
  | nothing => rfl
  | @last line ne free =>
    have unfinished : line.getLast? ≠ some '\n' := fun last => free (List.mem_of_getLast? last)
    simp [unfinished]
  | @line line rest lines free split ih =>
    have kept : withoutReturn line = line := by
      refine if_neg fun last => plain ?_
      obtain ⟨front, rfl⟩ := List.getLast?_eq_some_iff.mp last
      exact ⟨front, rest, by simp⟩
    have below : rest <:+ line ++ '\n' :: rest := ⟨line ++ ['\n'], by simp⟩
    have ih := ih fun within => plain (within.trans below.isInfix)
    have last : (line ++ '\n' :: rest).getLast? = some (rest.getLast?.getD '\n') := by
      rw [List.getLast?_append, List.getLast?_cons, Option.some_or]
    rw [kept, last]
    cases lines with
    | nil =>
      obtain rfl := split.eq_nil
      simp
    | cons next lines =>
      have ne : rest ≠ [] := by
        rintro rfl
        exact nomatch split.unique .nothing
      have hc := List.getLast?_eq_some_getLast ne
      rw [hc] at ih ⊢
      rw [List.intercalate_cons_cons, List.append_assoc, List.append_assoc, Option.getD_some, ← ih]
      rfl

end SplitsInto

/-! ### The text of one line -/

theorem dropEnding_append (line : List Char) :
    dropEnding (line ++ ['\n']) = withoutReturn line := by
  rcases List.eq_nil_or_concat' line with rfl | ⟨front, c, rfl⟩
  · rfl
  have reversed : (front ++ [c] ++ ['\n']).reverse = '\n' :: c :: front.reverse := by simp
  have last : (front ++ [c]).getLast? = some c := by simp
  unfold dropEnding withoutReturn
  rw [reversed, last]
  by_cases returned : c = '\r'
  · simp [returned]
  · simp [returned]

theorem dropEnding_of_not_mem {line : List Char} (free : '\n' ∉ line) : dropEnding line = line := by
  have notLast {rest} : line.reverse ≠ '\n' :: rest := by
    intro eq
    exact free (List.mem_reverse.mp (eq ▸ List.mem_cons_self))
  unfold dropEnding
  split
  · next eq => exact absurd eq notLast
  · next eq => exact absurd eq notLast
  · rfl

/-! ### Cutting bytes and cutting their text -/

section Bytes

variable {front : List UInt8} (free : newline ∉ front)

theorem newline_small : newline.toNat < 0x80 := by decide

theorem decode_append_newline (front rest : List UInt8) :
    Utf8.decode (front ++ newline :: rest) = Utf8.decode front ++ '\n' :: Utf8.decode rest :=
  Utf8.decode_append_of_lt newline_small front rest

theorem lineText_append (front : List UInt8) : lineText (front ++ [newline]) =
    String.ofList (withoutReturn (Utf8.decode front)) := by
  rw [lineText, decode_append_newline, Utf8.decode_nil, dropEnding_append]

include free

theorem newline_not_mem_decode : '\n' ∉ Utf8.decode front :=
  fun mem => free (Utf8.mem_of_mem_decode newline_small mem)

theorem lineText_of_not_mem : lineText front = String.ofList (Utf8.decode front) := by
  rw [lineText, dropEnding_of_not_mem (newline_not_mem_decode free)]

theorem ofBytes_append_cons (rest : List UInt8) : ofBytes (front ++ newline :: rest) =
    String.ofList (withoutReturn (Utf8.decode front)) :: ofBytes rest := by
  rw [ofBytes, ending_append_cons free, List.map_cons, lineText_append, ofBytes]

theorem ofBytes_of_not_mem (ne : front ≠ []) :
    ofBytes front = [String.ofList (Utf8.decode front)] := by
  rw [ofBytes, ending_of_not_mem ne free, List.map_singleton, lineText_of_not_mem free]

end Bytes

theorem decode_ne_nil {bytes : List UInt8} (ne : bytes ≠ []) : Utf8.decode bytes ≠ [] := by
  cases bytes with
  | nil => exact absurd rfl ne
  | cons => simp [Utf8.decode_cons]

/-- The text of the bytes splits into the lines that the bytes are cut into. -/
theorem splitsInto_ofBytes (content : List UInt8) :
    SplitsInto (Utf8.decode content) ((ofBytes content).map String.toList) := by
  induction content using marks_induction newline with
  | last content free =>
    by_cases ne : content = []
    · subst ne
      simpa [ofBytes, ending] using SplitsInto.nothing
    · rw [ofBytes_of_not_mem free ne, List.map_singleton, String.toList_ofList]
      exact .last (decode_ne_nil ne) (newline_not_mem_decode free)
  | piece front rest free ih =>
    rw [ofBytes_append_cons free, decode_append_newline, List.map_cons, String.toList_ofList]
    exact .line (newline_not_mem_decode free) ih

/-- Cut after newlines in any way, bytes have the texts of their pieces as their text. -/
theorem decode_pieces (pieces : List (List UInt8))
    (ended : ∀ piece ∈ pieces.dropLast, piece.getLast? = some newline) :
    Utf8.decode pieces.flatten = pieces.flatMap Utf8.decode := by
  induction pieces with
  | nil => exact Utf8.decode_nil
  | cons piece pieces ih =>
    cases pieces with
    | nil => simp
    | cons next pieces =>
      rw [List.dropLast_cons_of_ne_nil (List.cons_ne_nil _ _)] at ended
      have ih := ih fun p mem => ended p (List.mem_cons_of_mem _ mem)
      obtain ⟨front, rfl⟩ := List.getLast?_eq_some_iff.mp (ended piece List.mem_cons_self)
      calc Utf8.decode ((front ++ [newline]) :: next :: pieces).flatten
          = Utf8.decode (front ++ newline :: (next :: pieces).flatten) := by simp
        _ = Utf8.decode front ++ ['\n'] ++ (next :: pieces).flatMap Utf8.decode := by
          rw [decode_append_newline, ih, List.append_assoc, List.singleton_append]
        _ = Utf8.decode (front ++ [newline]) ++ (next :: pieces).flatMap Utf8.decode := by
          rw [decode_append_newline, Utf8.decode_nil]
        _ = ((front ++ [newline]) :: next :: pieces).flatMap Utf8.decode := rfl

/-! ### The reader -/

/-- A read leaves an unfinished line behind, and the lines that it completes are those that come
first. -/
theorem feed_ofBytes (chunk : List UInt8) (reader : Reader) (free : newline ∉ reader.pending) :
    newline ∉ (reader.feed chunk).1.pending ∧ ∀ rest,
      (reader.feed chunk).2 ++ ofBytes ((reader.feed chunk).1.pending.reverse ++ rest) =
        ofBytes (reader.pending.reverse ++ (chunk ++ rest)) := by
  induction chunk generalizing reader with
  | nil => exact ⟨free, fun rest => rfl⟩
  | cons b chunk ih =>
    have unread : newline ∉ reader.pending.reverse := fun mem => free (List.mem_reverse.mp mem)
    by_cases ends : b = newline
    · subst ends
      obtain ⟨kept, later⟩ := ih ⟨[]⟩ List.not_mem_nil
      simp only [Reader.feed, if_pos]
      refine ⟨kept, fun rest => ?_⟩
      rw [List.cons_append, later, List.reverse_nil, List.nil_append, List.cons_append,
        ofBytes_append_cons unread, List.reverse_cons, lineText_append]
    · obtain ⟨kept, later⟩ := ih ⟨b :: reader.pending⟩ (by simp [free, Ne.symm ends])
      simp only [Reader.feed, if_neg ends]
      refine ⟨kept, fun rest => ?_⟩
      rw [later, List.reverse_cons, List.append_assoc]
      rfl

theorem run_eq_ofBytes (reads : List (List UInt8)) (reader : Reader)
    (free : newline ∉ reader.pending) :
    reader.run reads = ofBytes (reader.pending.reverse ++ reads.flatten) := by
  induction reads generalizing reader with
  | nil =>
    have unread : newline ∉ reader.pending.reverse := fun mem => free (List.mem_reverse.mp mem)
    rw [Reader.run, Reader.finish, List.flatten_nil, List.append_nil]
    split
    · next none =>
      rw [List.isEmpty_iff.mp none]
      rfl
    · next some =>
      rw [lineText_of_not_mem unread, ofBytes_of_not_mem unread (by simpa using some)]
  | cons chunk reads ih =>
    obtain ⟨kept, lines⟩ := feed_ofBytes chunk reader free
    rw [List.flatten_cons, ← lines, ← ih _ kept]
    rfl

/-- The lines do not depend on how the content is cut into reads. -/
theorem ofReads_eq_ofBytes (reads : List (List UInt8)) : ofReads reads = ofBytes reads.flatten :=
  run_eq_ofBytes reads ⟨[]⟩ List.not_mem_nil

/-! ### Nothing is lost -/

theorem encode_intercalate (lines : List (List Char)) :
    Utf8.encode (List.intercalate ['\n'] lines) =
      List.intercalate [newline] (lines.map Utf8.encode) := by
  induction lines with
  | nil => rfl
  | cons line lines ih =>
    cases lines with
    | nil => simp
    | cons next lines =>
      rw [List.intercalate_cons_cons, Utf8.encode_append, Utf8.encode_append, ih]
      exact (List.intercalate_cons_cons ..).symm

/-- The bytes of a text end with a newline just if the text does. -/
theorem getLast?_encode {text : List Char} :
    (Utf8.encode text).getLast? = some newline ↔ text.getLast? = some '\n' := by
  constructor
  · intro last
    obtain ⟨front, eq⟩ := List.getLast?_eq_some_iff.mp last
    have := decode_append_newline front []
    rw [← eq, Utf8.decode_encode, Utf8.decode_nil] at this
    rw [this, List.getLast?_append]
    rfl
  · intro last
    obtain ⟨front, rfl⟩ := List.getLast?_eq_some_iff.mp last
    rw [Utf8.encode_append, List.getLast?_append]
    rfl

/-- What holds of the lines of a pipe's content. -/
structure LosesNothing (content : List UInt8) (lines : List String) : Prop where
  /-- They are the lines of the text of everything. -/
  splits_iff : ∀ texts, SplitsInto (Utf8.decode content) texts ↔ lines.map String.toList = texts
  /-- There is one for each newline, and one more for what follows the last newline. -/
  length : lines.length =
    content.count newline + if content = [] ∨ content.getLast? = some newline then 0 else 1
  /-- Text made piece by piece, cut after newlines in any way, is the text of everything. -/
  pieces : ∀ pieces : List (List UInt8), pieces.flatten = content →
    (∀ piece ∈ pieces.dropLast, piece.getLast? = some newline) →
    pieces.flatMap Utf8.decode = Utf8.decode content
  /-- The bytes of a text without a carriage return before a newline are the bytes of the lines
  with newlines between them, and the last newline if there was one. -/
  recovered : ∀ text, Utf8.encode text = content → ¬['\r', '\n'] <:+: text →
    List.intercalate [newline] (lines.map Utf8.bytes) ++
      (if content.getLast? = some newline then [newline] else []) = content

/-- **The lines of a pipe lose nothing of its content.**  However the content is cut into reads,
the lines are those of its text, read as a whole. -/
theorem ofReads_loses_nothing (reads : List (List UInt8)) :
    LosesNothing reads.flatten (ofReads reads) := by
  rw [ofReads_eq_ofBytes]
  have split := splitsInto_ofBytes reads.flatten
  refine ⟨fun texts => ⟨fun h => split.unique h, fun h => h ▸ split⟩, ?_, ?_, ?_⟩
  · rw [ofBytes, List.length_map, length_ending]
    cases reads.flatten with
    | nil => simp
    | cons b rest => simp [List.getLast?_cons]
  · rintro pieces flat ended
    rw [← flat, decode_pieces pieces ended]
  · intro text encoded plain
    have bytes_eq : Utf8.bytes = Utf8.encode ∘ String.toList := rfl
    rw [← encoded, Utf8.decode_encode] at split
    have rejoined := congrArg Utf8.encode (split.rejoined plain)
    rw [Utf8.encode_append, encode_intercalate, List.map_map, ← bytes_eq] at rejoined
    rw [← encoded]
    refine Eq.trans ?_ rejoined.symm
    simp only [getLast?_encode]
    split <;> rfl

-- A sequence that a newline cuts short is one replacement character, and of two carriage returns
-- before a newline only one goes.
example : ofReads [[0x61, 0xE2, 0x82], [0x0A, 0x0D], [0x0D, 0x0A, 0x0D]] =
    ["a\uFFFD", "\r", "\r"] := by
  decide +kernel

end DeployWatch.Text.Lines
