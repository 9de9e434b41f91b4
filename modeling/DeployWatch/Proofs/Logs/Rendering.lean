/-
# A rendered line tells its entry

A line shows when an entry was written, its stream and its message (`LogEntry.Shows`), and each of
the three is had back from the line alone: no time holds a blank, so the first one ends it; a
stream without closing brackets ends at the first of them; and the rest is the message without the
line ends it closes with, which leaves one thing only (`Stripped.eq_trimmedMessage`).  Since no two
timestamps are written alike, lines are the same just for entries of the same time and stream whose
messages differ at most in the line ends at their end (`LogEntry.line_unambiguous`).
-/

import DeployWatch.Logs.Rendering
import DeployWatch.Proofs.Text.Runs
import DeployWatch.Proofs.Time.Timestamp

namespace DeployWatch

open DeployWatch.Text DeployWatch.Time

/-! ### Messages without the line ends they close with -/

/-- A character that ends a line or stands before one that does. -/
def IsLineEnd (c : Char) : Prop := c = '\n' ∨ c = '\r'

/-- Characters without the line ends they close with, all of these and nothing else left out. -/
structure Stripped (cs core : List Char) : Prop where
  closes : ∃ ends, cs = core ++ ends ∧ ∀ c ∈ ends, IsLineEnd c
  solid : ∀ c ∈ core.getLast?, ¬ IsLineEnd c

theorem stripped_trimmedMessage (cs : List Char) : Stripped cs (LogEntry.trimmedMessage cs) := by
  have run := leadingRun_takeWhile (fun c => c = '\n' || c = '\r') cs.reverse
  constructor
  · refine ⟨(cs.reverse.takeWhile fun c => c = '\n' || c = '\r').reverse, ?_, ?_⟩
    · rw [LogEntry.trimmedMessage, ← List.reverse_append, List.takeWhile_append_dropWhile,
        List.reverse_reverse]
    · intro c mem
      simpa [IsLineEnd] using run.all c (List.mem_reverse.mp mem)
  · intro c last
    rw [LogEntry.trimmedMessage, List.getLast?_reverse] at last
    simpa [IsLineEnd] using run.stops c last

/-- Leaving out the line ends has one outcome. -/
theorem Stripped.eq_trimmedMessage {cs core : List Char} (h : Stripped cs core) :
    core = LogEntry.trimmedMessage cs := by
  obtain ⟨ends, rfl, line_ends⟩ := h.closes
  have run : LeadingRun (fun c => c = '\n' || c = '\r') ends.reverse core.reverse := by
    constructor
    · intro c mem
      simpa [IsLineEnd] using line_ends c (List.mem_reverse.mp mem)
    · intro c head
      rw [List.head?_reverse] at head
      simpa [IsLineEnd] using h.solid c head
  rw [LogEntry.trimmedMessage, List.reverse_append, run.dropWhile_append, List.reverse_reverse]

/-! ### The parts of a line -/

/-- What the time part of a line tells: in the calendar the millisecond it denotes, and only that;
beyond it the bare number. -/
structure TellsTime (ms : Int) (time : List Char) : Prop where
  inside : -8334601228800000 ≤ ms → ms ≤ 8210266876799999 →
    ∀ ms', Timestamp.Denotes time ms' ↔ ms' = ms
  outside : ms < -8334601228800000 ∨ 8210266876799999 < ms → time = Decimal.signedDigits ms

theorem tellsTime_text (ms : Int) : TellsTime ms (Timestamp.text ms).toList where
  inside first last _ := Timestamp.denotes_text_iff (Timestamp.inCalendar_iff.mpr ⟨first, last⟩)
  outside beyond := by
    apply Timestamp.toList_text_of_outside
    rw [← Bool.not_eq_true, Timestamp.inCalendar_iff]
    omega

namespace LogEntry

/-- The parts of an entry's line: a time without blanks, the stream in brackets, and the message
without the line ends it closes with. -/
structure Shows (e : LogEntry) (time core : List Char) : Prop where
  line : e.text.toList = time ++ ' ' :: ('[' :: e.stream.toList ++ ']' :: (' ' :: core))
  unbroken : ' ' ∉ time
  stripped : Stripped e.message.toList core

theorem shows_parts (e : LogEntry) :
    e.Shows (Timestamp.text e.timestamp).toList (trimmedMessage e.message.toList) where
  line := by simp [text]
  unbroken := Timestamp.blank_not_mem_text e.timestamp
  stripped := stripped_trimmedMessage e.message.toList

/-- Two messages that differ at most in the line ends they close with. -/
def SameMessage (e e' : LogEntry) : Prop :=
  ∃ core, Stripped e.message.toList core ∧ Stripped e'.message.toList core

theorem sameMessage_iff {e e' : LogEntry} :
    e.SameMessage e' ↔ trimmedMessage e.message.toList = trimmedMessage e'.message.toList := by
  constructor
  · rintro ⟨core, stripped, stripped'⟩
    rw [← stripped.eq_trimmedMessage, ← stripped'.eq_trimmedMessage]
  · intro same
    exact ⟨_, stripped_trimmedMessage _, same ▸ stripped_trimmedMessage _⟩

/-- The parts of a line are had back from the line. -/
theorem Shows.parts_eq {e e' : LogEntry} {time time' core core' : List Char}
    (h : e.Shows time core) (h' : e'.Shows time' core') (plain : ']' ∉ e.stream.toList)
    (plain' : ']' ∉ e'.stream.toList) (same : e.text = e'.text) :
    time = time' ∧ e.stream = e'.stream ∧ core = core' := by
  have lines := h.line.symm.trans ((congrArg String.toList same).trans h'.line)
  obtain ⟨time_eq, rest⟩ :=
    (leadingRun_mark h.unbroken _).unique (leadingRun_mark h'.unbroken _) lines
  have bracketed : ∀ stream : List Char, ']' ∉ stream → ']' ∉ '[' :: stream := by
    intro stream plain
    simpa using plain
  obtain ⟨stream_eq, rest⟩ := (leadingRun_mark (bracketed _ plain) _).unique
    (leadingRun_mark (bracketed _ plain') _) (List.cons.inj rest).2
  have core_eq := (List.cons.inj (List.cons.inj rest).2).2
  exact ⟨time_eq, String.toList_inj.mp (List.cons.inj stream_eq).2, core_eq⟩

/-- Entries whose streams hold no closing bracket have one line just if they have the same time
and stream, and messages that differ at most in the line ends they close with.  The part of a line
before the first blank denotes the entry's millisecond, or is its number where the calendar ends. -/
theorem line_unambiguous :
    (∀ e e' : LogEntry, ']' ∉ e.stream.toList → ']' ∉ e'.stream.toList →
      (e.text = e'.text ↔
        e.timestamp = e'.timestamp ∧ e.stream = e'.stream ∧ e.SameMessage e')) ∧
    ∀ e : LogEntry, ∃ time core, e.Shows time core ∧ TellsTime e.timestamp time := by
  constructor
  · intro e e' plain plain'
    constructor
    · intro same
      obtain ⟨times, streams, cores⟩ := (shows_parts e).parts_eq (shows_parts e') plain plain' same
      have timestamps := Timestamp.text_injective (String.toList_inj.mp times)
      exact ⟨timestamps, streams, sameMessage_iff.mpr cores⟩
    · rintro ⟨timestamps, streams, messages⟩
      rw [text, text, timestamps, streams, sameMessage_iff.mp messages]
  · intro e
    exact ⟨_, _, shows_parts e, tellsTime_text e.timestamp⟩

/-- Two entries of the last millisecond before the year zero have one line although one message
ends in line ends of both kinds, a line that denotes this millisecond; and an entry of another
stream has another line. -/
theorem line_before_year_zero :
    text ⟨"web[1", -62167219200001, "up [2] \n\r\n"⟩ = text ⟨"web[1", -62167219200001, "up [2] "⟩ ∧
      (∃ time core, Shows ⟨"web[1", -62167219200001, "up [2] "⟩ time core ∧
        Timestamp.Denotes time (-62167219200001)) ∧
      text ⟨"web", -62167219200001, "up"⟩ ≠ text ⟨"web[1", -62167219200001, "up"⟩ := by
  obtain ⟨same_iff, parts⟩ := line_unambiguous
  refine ⟨?_, ?_, ?_⟩
  · apply (same_iff _ _ (by decide) (by decide)).mpr
    exact ⟨rfl, rfl, sameMessage_iff.mpr (by decide)⟩
  · obtain ⟨time, core, shown, tells⟩ := parts ⟨"web[1", -62167219200001, "up [2] "⟩
    exact ⟨time, core, shown, (tells.inside (by decide) (by decide) _).mpr rfl⟩
  · intro same
    have streams := ((same_iff _ _ (by decide) (by decide)).mp same).2.1
    exact absurd streams (by decide)

end LogEntry

end DeployWatch
