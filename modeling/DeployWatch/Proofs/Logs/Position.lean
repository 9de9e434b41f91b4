/-
# What a position remembers

A position is the newest moment of the events that led to it: the greatest of their timestamps,
with the ids of just those events that have it (`LogPosition.NewestOf`).  Moving a position past
events that are not older than it keeps this true of all events together
(`LogPosition.advance?_newestOf`), so the position tells for every later event whether it was among
them (`LogPosition.NewestOf.hasSeen_iff`).

A query whose token encodes a position resumes at it (`Provider.resumption_eq`), and an answer
without a token of the provider leads to the next one (`Provider.pageOf_eq`).
-/

import Mathlib.Data.Int.Order.Basic
import Mathlib.Order.Basic
import DeployWatch.Cloud.Provider
import DeployWatch.Proofs.Logs.Codec

namespace DeployWatch

namespace LogPosition

variable {events : List (Int × String)} {before : Option LogPosition} {p : LogPosition}

/-! ### The newest timestamp -/

theorem newest?_eq_none {ts : List Int} : newest? ts = none ↔ ts = [] := by
  cases ts with
  | nil => simp [newest?]
  | cons t rest => cases h : newest? rest <;> simp [newest?, h]

/-- The newest timestamp is one of them, and none is greater. -/
theorem newest?_eq_some {ts : List Int} {m : Int} :
    newest? ts = some m ↔ m ∈ ts ∧ ∀ t ∈ ts, t ≤ m := by
  induction ts generalizing m with
  | nil => simp [newest?]
  | cons t rest ih =>
    cases h : newest? rest with
    | none =>
      rw [newest?_eq_none] at h
      subst h
      simp only [newest?, Option.some.injEq, List.mem_singleton, forall_eq]
      exact ⟨fun eq => ⟨eq.symm, le_of_eq eq⟩, fun eq => eq.1.symm⟩
    | some u =>
      obtain ⟨mem, le⟩ := ih.mp h
      simp only [newest?, h, Option.some.injEq, List.mem_cons, forall_eq_or_imp]
      constructor
      · rintro rfl
        refine ⟨?_, le_max_left t u, fun x hx => le_trans (le x hx) (le_max_right t u)⟩
        rcases le_total t u with h | h
        · exact .inr (by rwa [max_eq_right h])
        · exact .inl (max_eq_left h)
      · rintro ⟨rfl | hm, ht, hle⟩
        · exact max_eq_left (hle u mem)
        · exact le_antisymm (max_le ht (hle u mem)) (le_trans (le m hm) (le_max_right t u))

/-! ### The ids -/

/-- Adding ids keeps those that are there and adds those that can be added. -/
theorem mem_foldl_addId {ids seen : List String} {id : String} :
    id ∈ ids.foldl addId seen ↔ id ∈ seen ∨ id ∈ ids ∧ id ≠ "" := by
  induction ids generalizing seen with
  | nil => simp
  | cons first rest ih =>
    have one : id ∈ addId seen first ↔ id ∈ seen ∨ id = first ∧ id ≠ "" := by
      unfold addId
      split
      · next h =>
        simp only [Bool.or_eq_true, String.isEmpty_iff, List.contains_iff_mem] at h
        constructor
        · exact .inl
        · rintro (mem | ⟨rfl, ne⟩)
          · exact mem
          · exact h.resolve_left ne
      · next h =>
        simp only [Bool.or_eq_true, String.isEmpty_iff, not_or] at h
        simp only [List.mem_append, List.mem_singleton]
        constructor
        · rintro (mem | rfl)
          · exact .inl mem
          · exact .inr ⟨rfl, h.1⟩
        · rintro (mem | ⟨eq, -⟩)
          · exact .inl mem
          · exact .inr eq
    rw [List.foldl_cons, ih, one, List.mem_cons]
    constructor
    · rintro ((mem | ⟨eq, ne⟩) | ⟨mem, ne⟩)
      · exact .inl mem
      · exact .inr ⟨.inl eq, ne⟩
      · exact .inr ⟨.inr mem, ne⟩
    · rintro (mem | ⟨eq | mem, ne⟩)
      · exact .inl (.inl mem)
      · exact .inl (.inr ⟨eq, ne⟩)
      · exact .inr ⟨mem, ne⟩

/-- Adding ids repeats none of them. -/
theorem nodup_foldl_addId {ids seen : List String} (once : seen.Nodup) :
    (ids.foldl addId seen).Nodup := by
  induction ids generalizing seen with
  | nil => exact once
  | cons id rest ih =>
    rw [List.foldl_cons]
    apply ih
    unfold addId
    split
    · exact once
    · next fresh =>
      simp only [Bool.or_eq_true, List.contains_iff_mem, not_or] at fresh
      rw [List.nodup_append]
      refine ⟨once, by simp, ?_⟩
      rintro old mem new hnew rfl
      rw [List.mem_singleton] at hnew
      exact fresh.2 (hnew ▸ mem)

/-! ### Moving past events -/

/-- Only without events there is no new position. -/
theorem advance?_eq_none : advance? before events = none ↔ events = [] := by
  cases h : newest? (events.map (·.1)) with
  | none => simpa [advance?, h] using newest?_eq_none.mp h
  | some m =>
    have : events ≠ [] := by rintro rfl; simp [newest?] at h
    simp [advance?, h, this]

/-- The new position has the newest timestamp of the events. -/
theorem timestamp_of_advance? (h : advance? before events = some p) :
    (∃ e ∈ events, e.1 = p.timestamp) ∧ ∀ e ∈ events, e.1 ≤ p.timestamp := by
  simp only [advance?, Option.bind_eq_bind, Option.bind_eq_some_iff] at h
  obtain ⟨m, newest, eq⟩ := h
  obtain rfl := Option.some.inj eq
  obtain ⟨mem, le⟩ := newest?_eq_some.mp newest
  exact ⟨List.mem_map.mp mem, fun e he => le _ (List.mem_map_of_mem he)⟩

/-- The new position holds the ids of the events with its timestamp, and those of the position
before if that has the same one. -/
theorem mem_seen_of_advance? (h : advance? before events = some p) (id : String) :
    id ∈ p.seen ↔ (∃ q, before = some q ∧ q.timestamp = p.timestamp ∧ id ∈ q.seen) ∨
      (p.timestamp, id) ∈ events ∧ id ≠ "" := by
  simp only [advance?, Option.bind_eq_bind, Option.bind_eq_some_iff] at h
  obtain ⟨m, -, eq⟩ := h
  obtain rfl := Option.some.inj eq
  have now : id ∈ (events.filter (·.1 = m)).map (·.2) ↔ (m, id) ∈ events := by
    simp only [List.mem_map, List.mem_filter, decide_eq_true_eq]
    constructor
    · rintro ⟨e, ⟨he, rfl⟩, rfl⟩; exact he
    · intro he; exact ⟨_, ⟨he, rfl⟩, rfl⟩
  rw [mem_foldl_addId, now]
  refine or_congr_left ?_
  cases before with
  | none => simp
  | some q =>
    simp only [Option.some.injEq, exists_eq_left']
    split
    · next same => simp [same]
    · next other => simp [other]

/-- The new position repeats no id, if the one before repeats none. -/
theorem nodup_seen_of_advance? (h : advance? before events = some p)
    (once : ∀ q, before = some q → q.seen.Nodup) : p.seen.Nodup := by
  simp only [advance?, Option.bind_eq_bind, Option.bind_eq_some_iff] at h
  obtain ⟨m, -, eq⟩ := h
  obtain rfl := Option.some.inj eq
  apply nodup_foldl_addId
  cases before with
  | none => exact List.nodup_nil
  | some q =>
    have kept : (if q.timestamp = m then q.seen else []).Nodup := by
      split
      · exact once q rfl
      · exact List.nodup_nil
    exact kept

/-- A position that events lead to can be written, if they can and if the one before could. -/
theorem writable_of_advance? (h : advance? before events = some p)
    (old : ∀ q, before = some q → q.Writable)
    (new : ∀ e ∈ events, Text.Decimal.IsLong e.1 ∧ IsId e.2) : p.Writable := by
  obtain ⟨⟨e, he, eq⟩, -⟩ := timestamp_of_advance? h
  refine ⟨eq ▸ (new e he).1, fun id hid => ?_⟩
  rcases (mem_seen_of_advance? h id).mp hid with ⟨q, hq, -, mem⟩ | ⟨mem, -⟩
  · exact (old q hq).ids id mem
  · exact (new _ mem).2

/-! ### The newest moment of events -/

/-- The position is the newest moment of some events. -/
structure NewestOf (events : List (Int × String)) (p : LogPosition) : Prop where
  reached : ∃ e ∈ events, e.1 = p.timestamp
  newest : ∀ e ∈ events, e.1 ≤ p.timestamp
  mem_seen : ∀ id, id ∈ p.seen ↔ (p.timestamp, id) ∈ events

/-- A position knows of every event that is not older whether it was among its events. -/
theorem NewestOf.hasSeen_iff (h : p.NewestOf events) {e : Int × String}
    (later : p.timestamp ≤ e.1) : p.hasSeen e.1 e.2 = true ↔ e ∈ events := by
  simp only [hasSeen, Bool.and_eq_true, decide_eq_true_eq, List.contains_iff_mem, h.mem_seen]
  constructor
  · rintro ⟨same, mem⟩; rwa [← same] at mem
  · intro mem
    have same : e.1 = p.timestamp := le_antisymm (h.newest e mem) later
    exact ⟨same, same ▸ mem⟩

/-- What is remembered of events: nothing of none, and else their newest moment. -/
def Remembers (events : List (Int × String)) : Option LogPosition → Prop
  | none => events = []
  | some p => p.NewestOf events

/-- Past events that are not older, the position is the newest moment of all of them. -/
theorem advance?_newestOf {old new : List (Int × String)} (remembers : Remembers old before)
    (later : ∀ q, before = some q → ∀ e ∈ new, q.timestamp ≤ e.1) (ids : ∀ e ∈ new, e.2 ≠ "")
    (h : advance? before new = some p) : p.NewestOf (old ++ new) := by
  obtain ⟨⟨e, he, reached⟩, newest⟩ := timestamp_of_advance? h
  have seen := mem_seen_of_advance? h
  have named : ∀ id, ((p.timestamp, id) ∈ new ∧ id ≠ "") ↔ (p.timestamp, id) ∈ new :=
    fun id => ⟨And.left, fun mem => ⟨mem, ids _ mem⟩⟩
  cases before with
  | none =>
    obtain rfl : old = [] := remembers
    refine ⟨⟨e, he, reached⟩, newest, fun id => ?_⟩
    rw [seen, named]
    simp
  | some q =>
    have q_newest : q.NewestOf old := remembers
    have forward : q.timestamp ≤ p.timestamp := reached ▸ later q rfl e he
    refine ⟨⟨e, List.mem_append_right _ he, reached⟩, ?_, fun id => ?_⟩
    · intro x hx
      rcases List.mem_append.mp hx with hx | hx
      · exact le_trans (q_newest.newest x hx) forward
      · exact newest x hx
    · rw [seen, named, List.mem_append]
      refine or_congr_left ?_
      simp only [Option.some.injEq, exists_eq_left', q_newest.mem_seen]
      constructor
      · rintro ⟨same, mem⟩; rwa [same] at mem
      · intro mem
        -- an old event with the new timestamp is one of the newest old ones
        have same : q.timestamp = p.timestamp := le_antisymm forward (q_newest.newest _ mem)
        exact ⟨same, same ▸ mem⟩

end LogPosition

/-! ### Queries that carry a position -/

namespace Provider

open Text LogPosition

variable {position : Option LogPosition} {events : List LogEvent}

/-- The position can be written, if there is one. -/
def Carried (position : Option LogPosition) : Prop := ∀ p, position = some p → p.Writable

/-- The query stands at the position: its token encodes it, or there is neither. -/
structure Stands (q : LogQuery) (position : Option LogPosition) : Prop where
  carried : Carried position
  token : q.token = position.map encode

/-- A query resumes where it stands. -/
theorem resumption_eq {q : LogQuery} (stands : Stands q position) :
    resumption q = ⟨(position.map timestamp).or q.start, none, position⟩ := by
  unfold resumption
  cases position with
  | none => simp [stands.token]
  | some p => simp [stands.token, isOwn_encode, decode?_encode (stands.carried p rfl)]

/-- The position at which a query resumes is the one that its token encodes. -/
theorem position_resumption (q : LogQuery) :
    (resumption q).position = q.token.bind decode? := by
  unfold resumption
  cases q.token with
  | none => rfl
  | some token =>
    cases own : isOwn token with
    | false => simp [own, decode?_of_foreign own]
    | true => cases h : decode? token <;> simp [own, h]

/-- A query asks for events from the time of its position on, or else from its own start. -/
theorem start_requestOf (q : LogQuery) :
    (requestOf q).start = ((q.token.bind decode?).map timestamp).or q.start := by
  unfold requestOf resumption
  cases q.token with
  | none => rfl
  | some token =>
    cases own : isOwn token with
    | false => simp [own, decode?_of_foreign own]
    | true => cases h : decode? token <;> simp [own, h]

/-- A fresh event is one of the answer that the position does not know. -/
theorem mem_unseen {e : LogEvent} :
    e ∈ unseen position events ↔
      e ∈ events ∧ ∀ p, position = some p → p.hasSeen e.timestamp e.id = false := by
  cases position with
  | none => simp [unseen]
  | some p => simp [unseen]

theorem unseen_sublist (position : Option LogPosition) (events : List LogEvent) :
    (unseen position events).Sublist events := by
  cases position with
  | none => exact List.Sublist.refl _
  | some p => exact List.filter_sublist

/-- What is assumed of the events in an answer. -/
structure Proper (events : List LogEvent) : Prop where
  long : ∀ e ∈ events, Decimal.IsLong e.timestamp
  ids : ∀ e ∈ events, IsId e.id
  distinct : (events.map LogEvent.id).Nodup

theorem Proper.sublist {part : List LogEvent} (h : Proper events) (sub : part.Sublist events) :
    Proper part where
  long e he := h.long e (sub.subset he)
  ids e he := h.ids e (sub.subset he)
  distinct := h.distinct.sublist (sub.map _)

theorem Proper.unseen (h : Proper events) (position : Option LogPosition) :
    Proper (unseen position events) := h.sublist (unseen_sublist position events)

/-- The position past events of the provider can be written. -/
theorem carried_advance? (carried : Carried position) (proper : Proper events) :
    Carried (advance? position (events.map LogEvent.place)) := by
  intro p h
  refine writable_of_advance? h carried fun x hx => ?_
  obtain ⟨e, he, rfl⟩ := List.mem_map.mp hx
  exact ⟨proper.long e he, proper.ids e he⟩

/-- Past events of the provider, a position holds the ids of those with its timestamp. -/
theorem mem_seen_iff_event {p : LogPosition} (proper : Proper events)
    (h : advance? position (events.map LogEvent.place) = some p) (id : String) :
    id ∈ p.seen ↔ (∃ q, position = some q ∧ q.timestamp = p.timestamp ∧ id ∈ q.seen) ∨
      ∃ e ∈ events, e.timestamp = p.timestamp ∧ e.id = id := by
  rw [mem_seen_of_advance? h]
  refine or_congr_right ?_
  simp only [List.mem_map, LogEvent.place, Prod.mk.injEq]
  constructor
  · rintro ⟨found, -⟩; exact found
  · rintro ⟨e, he, time, rfl⟩; exact ⟨⟨e, he, time, rfl⟩, (proper.ids e he).1⟩

/-- The position after an answer that has no token of the provider. -/
def next (position : Option LogPosition) (events : List LogEvent) : Option LogPosition :=
  (advance? position ((unseen position events).map LogEvent.place)).or position

/-- Without a fresh event the position stays. -/
theorem next_eq_self (none_fresh : unseen position events = []) :
    next position events = position := by
  rw [next, none_fresh, List.map_nil, advance?_eq_none.mpr rfl, Option.none_or]

/-- An answer without a token of the provider makes a page of its fresh events, and its token
encodes the next position. -/
theorem pageOf_eq {q : LogQuery} (stands : Stands q position) (events : List LogEvent) :
    pageOf q ⟨events, none⟩ =
      ⟨(unseen position events).map LogEvent.entry,
        (next position events).map encode⟩ := by
  unfold pageOf
  rw [resumption_eq stands]
  simp only [next]
  cases advance? position ((unseen position events).map LogEvent.place) with
  | none => simp [stands.token]
  | some p => simp

/-! ### Answers whose events are not older than the position -/

/-- No event is older than the position. -/
def NotBefore (position : Option LogPosition) (events : List LogEvent) : Prop :=
  ∀ p, position = some p → ∀ e ∈ events, p.timestamp ≤ e.timestamp

/-- The events that a query asks for are not older than where it stands. -/
theorem notBefore_of_since {q : LogQuery} (stands : Stands q position)
    (since : ∀ start ∈ (requestOf q).start, ∀ e ∈ events, start ≤ e.timestamp) :
    NotBefore position events := by
  rintro p rfl e he
  refine since p.timestamp ?_ e he
  rw [requestOf, resumption_eq stands]
  rfl

/-- The fresh events are those that were not delivered. -/
theorem mem_unseen_iff {old : List LogEvent}
    (remembers : Remembers (old.map LogEvent.place) position)
    (later : NotBefore position events) {e : LogEvent} :
    e ∈ unseen position events ↔ e ∈ events ∧ e.place ∉ old.map LogEvent.place := by
  rw [mem_unseen]
  refine and_congr_right fun he => ?_
  cases position with
  | none =>
    have none : old.map LogEvent.place = [] := remembers
    simp [none]
  | some p =>
    have newest : p.NewestOf (old.map LogEvent.place) := remembers
    have seen := newest.hasSeen_iff (e := e.place) (later p rfl e he)
    simp only [Option.some.injEq, forall_eq']
    rw [← seen, Bool.not_eq_true]
    rfl

/-- The next position is the newest moment of the old events and the fresh ones. -/
theorem remembers_next {old : List LogEvent}
    (remembers : Remembers (old.map LogEvent.place) position)
    (later : NotBefore position events) (proper : Proper events) :
    Remembers ((old ++ unseen position events).map LogEvent.place) (next position events) := by
  have sub := (unseen_sublist position events).subset
  rw [List.map_append, next]
  cases h : advance? position ((unseen position events).map LogEvent.place) with
  | none =>
    rw [advance?_eq_none] at h
    rw [h, List.append_nil]
    exact remembers
  | some p =>
    refine advance?_newestOf remembers ?_ ?_ h
    · rintro q rfl x hx
      obtain ⟨e, he, rfl⟩ := List.mem_map.mp hx
      exact later q rfl e (sub he)
    · rintro x hx
      obtain ⟨e, he, rfl⟩ := List.mem_map.mp hx
      exact (proper.ids e (sub he)).1

/-- The next position can be written. -/
theorem carried_next (carried : Carried position) (proper : Proper events) :
    Carried (next position events) := by
  unfold next
  cases h : advance? position ((unseen position events).map LogEvent.place) with
  | none => exact carried
  | some p =>
    have moved := carried_advance? carried (proper.unseen position)
    rw [h] at moved
    exact moved

/-- With a fresh event the position moves on, and so does its token. -/
theorem encode_next_ne {old : List LogEvent} (carried : Carried position)
    (remembers : Remembers (old.map LogEvent.place) position) (later : NotBefore position events)
    (proper : Proper events) (fresh : unseen position events ≠ []) :
    (next position events).map encode ≠ position.map encode := by
  intro same
  have after := remembers_next remembers later proper
  have writable := carried_next carried proper
  obtain ⟨e, he⟩ := List.exists_mem_of_ne_nil _ fresh
  obtain ⟨mem, unknown⟩ := (mem_unseen_iff remembers later).mp he
  cases position with
  | none =>
    have : (unseen none events).map LogEvent.place = [] := by
      cases h : advance? none ((unseen none events).map LogEvent.place) with
      | none => exact advance?_eq_none.mp h
      | some p => simp [next, h] at same
    simp only [List.map_eq_nil_iff] at this
    exact fresh this
  | some p =>
    obtain ⟨q, hq, eq⟩ := Option.map_eq_some_iff.mp same
    obtain rfl := (encode_inj (writable q hq) (carried p rfl)).mp eq
    rw [hq] at after
    -- the same position would be the newest moment of the fresh event as well
    have both : q.NewestOf ((old ++ unseen (some q) events).map LogEvent.place) := after
    have known := (both.hasSeen_iff (e := e.place) (later q rfl e mem)).mpr
      (List.mem_map_of_mem (List.mem_append_right _ he))
    have newest : q.NewestOf (old.map LogEvent.place) := remembers
    exact unknown ((newest.hasSeen_iff (e := e.place) (later q rfl e mem)).mp known)

end Provider

end DeployWatch
