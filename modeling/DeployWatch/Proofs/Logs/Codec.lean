/-
# Tokens are read back as they were written

A token of this library is a mark, a timestamp, a colon and the ids, with commas between them.
Each part is read back on its own: the decimal digits by their value, the timestamp because it
holds no colon, the ids because they hold no comma.  So a position that can be written at all
(`LogPosition.Writable`) is the one that its token encodes (`LogPosition.decode?_encode`), and two
positions with the same token are the same (`LogPosition.encode_inj`).
-/

import Mathlib.Data.List.Basic
import DeployWatch.Cloud.LogPosition
import DeployWatch.Proofs.Text.Decimal
import DeployWatch.Proofs.Text.Pieces

namespace DeployWatch

/-! ### Positions -/

namespace LogPosition

open Text

/-- A text that a list of ids can hold. -/
def IsId (id : String) : Prop := id ≠ "" ∧ ',' ∉ id.toList

instance (id : String) : Decidable (IsId id) := inferInstanceAs (Decidable (_ ∧ _))

/-- A position that a token can encode. -/
structure Writable (p : LogPosition) : Prop where
  long : Decimal.IsLong p.timestamp
  ids : ∀ id ∈ p.seen, IsId id

theorem stripMark?_append (mark rest : List Char) :
    stripMark? mark (mark ++ rest) = some rest := by
  induction mark with
  | nil => rfl
  | cons m mark ih => simp [stripMark?, ih]

/-- Only what begins with the mark has something behind it. -/
theorem isPrefixOf_of_stripMark? {mark cs rest : List Char} (h : stripMark? mark cs = some rest) :
    mark.isPrefixOf cs = true := by
  induction mark generalizing cs with
  | nil => rfl
  | cons m mark ih =>
    cases cs with
    | nil => cases h
    | cons c cs =>
      simp only [stripMark?] at h
      split at h
      · next same => simp [same, ih h]
      · cases h

/-- A token that is none of this library's own encodes no position. -/
theorem decode?_of_foreign {token : String} (own : isOwn token = false) :
    decode? token = none := by
  cases h : stripMark? mark token.toList with
  | none => simp [decode?, h]
  | some rest =>
    have := isPrefixOf_of_stripMark? h
    rw [isOwn, this] at own
    cases own

/-- The characters of a token. -/
theorem toList_encode (p : LogPosition) :
    p.encode.toList = mark ++ (Decimal.signedDigits p.timestamp ++
      ':' :: (String.intercalate "," p.seen).toList) := by
  simp [encode]

/-- Every token that encodes a position is one of this library's own. -/
theorem isOwn_encode (p : LogPosition) : isOwn p.encode = true := by
  rw [isOwn, toList_encode, List.isPrefixOf_iff_prefix]
  exact List.prefix_append _ _

/-- The ids are found again between the commas. -/
theorem readIds_intercalate {ids : List String} (h : ∀ id ∈ ids, IsId id) :
    readIds (String.intercalate "," ids).toList = ids := by
  by_cases none : ids = []
  · subst none; rfl
  have free : ∀ piece ∈ ids.map String.toList, ',' ∉ piece := by
    intro piece hp
    obtain ⟨id, hid, rfl⟩ := List.mem_map.mp hp
    exact (h id hid).2
  have full : ∀ piece ∈ ids.map String.toList, (!piece.isEmpty) = true := by
    intro piece hp
    obtain ⟨id, hid, rfl⟩ := List.mem_map.mp hp
    simpa using (h id hid).1
  rw [readIds, String.toList_intercalate]
  change ((Pieces.between ',' (List.intercalate [','] (ids.map String.toList))).filter
    fun piece => !piece.isEmpty).map String.ofList = ids
  rw [Pieces.between_intercalate (by simpa using none) free, List.filter_eq_self.mpr full,
    List.map_map]
  simp

/-- What is read as ids can be written as ids. -/
theorem isId_of_mem_readIds {cs : List Char} {id : String} (h : id ∈ readIds cs) : IsId id := by
  obtain ⟨piece, hp, rfl⟩ := List.mem_map.mp h
  obtain ⟨mem, full⟩ := List.mem_filter.mp hp
  refine ⟨?_, by simpa using Pieces.not_mem_of_mem_between mem⟩
  intro empty
  have : piece = [] := by simpa using congrArg String.toList empty
  simp [this] at full

/-- A token is read up to the colon as a timestamp and from there on as ids. -/
theorem decode?_encode_eq {p : LogPosition} (long : Decimal.IsLong p.timestamp) :
    decode? p.encode = some ⟨p.timestamp, readIds (String.intercalate "," p.seen).toList⟩ := by
  have colon : ∀ c ∈ Decimal.signedDigits p.timestamp, decide (c ≠ ':') = true := by
    intro c hc
    have : c ≠ ':' := fun eq => Decimal.colon_not_mem_signedDigits _ (eq ▸ hc)
    simpa using this
  rw [decode?, toList_encode, stripMark?_append]
  simp only [Option.bind_eq_bind, Option.bind_some]
  rw [List.takeWhile_append_of_pos colon, List.dropWhile_append_of_pos colon]
  simp [Decimal.signed?_signedDigits long]

/-- A position that can be written is read back from its token. -/
theorem decode?_encode {p : LogPosition} (h : p.Writable) : decode? p.encode = some p := by
  rw [decode?_encode_eq h.long, readIds_intercalate h.ids]

/-- Different positions have different tokens. -/
theorem encode_inj {p q : LogPosition} (hp : p.Writable) (hq : q.Writable) :
    p.encode = q.encode ↔ p = q := by
  refine ⟨fun eq => ?_, fun eq => by rw [eq]⟩
  have := decode?_encode hp
  rw [eq, decode?_encode hq] at this
  exact (Option.some.inj this).symm

/-- A position that is read from a token can be written again. -/
theorem writable_of_decode? {token : String} {p : LogPosition} (h : decode? token = some p) :
    p.Writable := by
  unfold decode? at h
  simp only [Option.bind_eq_bind, Option.bind_eq_some_iff] at h
  obtain ⟨rest, -, time, read, eq⟩ := h
  obtain rfl := Option.some.inj eq
  exact ⟨Decimal.isLong_of_signed? read, fun _ hid => isId_of_mem_readIds hid⟩

end LogPosition

end DeployWatch
