/-
# What a token keeps of a position

A token keeps just those positions whose ids are not empty and hold no comma
(`LogPosition.decode?_encode_iff`).  Every position that is read from a token is of this kind, so
writing and reading it again changes nothing.

Moving a position past events leads to their newest timestamp and to the ids at that timestamp
(`LogPosition.passed_of_advance?`), and it brings in neither an empty id nor a repeated one.  The
main statement is `LogPosition.kept_by_token`.
-/

import DeployWatch.Proofs.Logs.Position

namespace DeployWatch.LogPosition

open Text

variable {before : Option LogPosition} {events : List (Int × String)} {p : LogPosition}

/-- Just the positions that can be written are read back from their tokens. -/
theorem decode?_encode_iff (p : LogPosition) : decode? p.encode = some p ↔ p.Writable := by
  constructor
  · intro read
    exact writable_of_decode? read
  · intro writable
    exact decode?_encode writable

/-- What is known of a position that was moved past events. -/
structure Passed (before : Option LogPosition) (events : List (Int × String)) (p : LogPosition) :
    Prop where
  /-- Its timestamp is one of the events. -/
  reached : ∃ e ∈ events, e.1 = p.timestamp
  /-- No event is newer. -/
  newest : ∀ e ∈ events, e.1 ≤ p.timestamp
  /-- It lists the ids at its timestamp, and those of the position before that has the same. -/
  mem_seen : ∀ id, id ∈ p.seen ↔ id ≠ "" ∧ (p.timestamp, id) ∈ events ∨
    ∃ q, before = some q ∧ q.timestamp = p.timestamp ∧ id ∈ q.seen
  /-- No id is empty, if none was before. -/
  full : (∀ q, before = some q → "" ∉ q.seen) → "" ∉ p.seen
  /-- No id is repeated, if none was before. -/
  once : (∀ q, before = some q → q.seen.Nodup) → p.seen.Nodup

/-- A position that is moved past events has passed them. -/
theorem passed_of_advance? (h : advance? before events = some p) : Passed before events p where
  reached := (timestamp_of_advance? h).1
  newest := (timestamp_of_advance? h).2
  mem_seen id := by
    rw [mem_seen_of_advance? h, or_comm, and_comm]
  full none_before mem := by
    rcases (mem_seen_of_advance? h "").mp mem with ⟨q, old, -, mem⟩ | ⟨-, ne⟩
    · exact none_before q old mem
    · exact ne rfl
  once := nodup_seen_of_advance? h

/-- **What a token keeps of a position.**  A position of 64 bits is read back from its token if and
only if its ids are not empty and hold no comma, and every position that was read from a token is.
A position that is moved past events is at the newest of their timestamps, with the ids found
there, and only without events there is no such position. -/
theorem kept_by_token :
    (∀ p : LogPosition, decode? p.encode = some p ↔
      Decimal.IsLong p.timestamp ∧ ∀ id ∈ p.seen, id ≠ "" ∧ ',' ∉ id.toList) ∧
    (∀ token p, decode? token = some p → decode? p.encode = some p) ∧
    ∀ before events, (advance? before events = none ↔ events = []) ∧
      ∀ p, advance? before events = some p → Passed before events p := by
  refine ⟨fun p => ?_, fun token p read => ?_, fun before events => ⟨advance?_eq_none, ?_⟩⟩
  · rw [decode?_encode_iff]
    exact ⟨fun writable => ⟨writable.long, writable.ids⟩, fun ⟨long, ids⟩ => ⟨long, ids⟩⟩
  · exact decode?_encode (writable_of_decode? read)
  · intro p moved
    exact passed_of_advance? moved

/-- A token that lists an id is read; past events of the same moment the position lists both ids,
once each, and is read back from its own token. -/
theorem kept_by_token_late_event :
    decode? "after:-5:b,,a" = some ⟨-5, ["b", "a"]⟩ ∧
    decode? (encode ⟨-5, ["b", "a"]⟩) = some ⟨-5, ["b", "a"]⟩ ∧
    advance? (some ⟨-5, ["b", "a"]⟩) [(-5, "c"), (-5, ""), (-9, "d"), (-5, "a")] =
      some ⟨-5, ["b", "a", "c"]⟩ ∧
    Passed (some ⟨-5, ["b", "a"]⟩) [(-5, "c"), (-5, ""), (-9, "d"), (-5, "a")]
      ⟨-5, ["b", "a", "c"]⟩ ∧
    ["b", "a", "c"].Nodup := by
  obtain ⟨-, again, moved⟩ := kept_by_token
  have read : decode? "after:-5:b,,a" = some ⟨-5, ["b", "a"]⟩ := by decide +kernel
  have step : advance? (some ⟨-5, ["b", "a"]⟩) [(-5, "c"), (-5, ""), (-9, "d"), (-5, "a")] =
      some ⟨-5, ["b", "a", "c"]⟩ := by decide +kernel
  have passed := (moved _ _).2 _ step
  refine ⟨read, again _ _ read, step, passed, passed.once ?_⟩
  rintro q ⟨⟩
  decide

end DeployWatch.LogPosition
