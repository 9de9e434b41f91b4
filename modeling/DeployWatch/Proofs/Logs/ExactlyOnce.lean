/-
# A tail delivers every event exactly once

When the provider answers without tokens of its own, what was delivered is remembered by a
position alone.  The events delivered so far, the events answered so far and the position are tied
together by `ExactlyOnce`: the delivered events have the places of the answered ones, no id was
delivered twice, and the position is their newest moment.  An answer whose events are not older
than the position keeps this true (`ExactlyOnce.answer`), and the token changes just when
something is delivered (`absorb_whole`).  The main statement is `Tail.tails_exactly_once`.
-/

import Mathlib.Data.List.Forall2
import DeployWatch.Proofs.Logs.Arrangement
import DeployWatch.Proofs.Logs.Tailing

namespace DeployWatch.Tail

open DeployWatch.Watch DeployWatch.Provider DeployWatch.Text LogPosition

variable {epoch : Int} {position : Option LogPosition} {answered delivered events : List LogEvent}

/-! ### The events delivered so far -/

/-- The delivered events are those of the answers, each once, and the position is their newest
moment. -/
structure ExactlyOnce (position : Option LogPosition) (answered delivered : List LogEvent) :
    Prop where
  carried : Carried position
  remembers : Remembers (delivered.map LogEvent.place) position
  complete : ∀ x, x ∈ delivered.map LogEvent.place ↔ x ∈ answered.map LogEvent.place
  once : (delivered.map LogEvent.id).Nodup

/-- An answer whose events are not older than the position is delivered exactly once, too. -/
theorem ExactlyOnce.answer (h : ExactlyOnce position answered delivered)
    (later : NotBefore position events) (proper : Proper events)
    (sameTime : ∀ e ∈ events, ∀ e' ∈ answered, e.id = e'.id → e.timestamp = e'.timestamp) :
    ExactlyOnce (next position events) (answered ++ events)
      (delivered ++ unseen position events) where
  carried := carried_next h.carried proper
  remembers := remembers_next h.remembers later proper
  complete x := by
    have fresh := fun e => mem_unseen_iff h.remembers later (e := e)
    rw [List.map_append, List.map_append, List.mem_append, List.mem_append, h.complete]
    constructor
    · rintro (old | new)
      · exact .inl old
      · obtain ⟨e, he, rfl⟩ := List.mem_map.mp new
        exact .inr (List.mem_map_of_mem ((fresh e).mp he).1)
    · rintro (old | new)
      · exact .inl old
      · by_cases old : x ∈ answered.map LogEvent.place
        · exact .inl old
        · obtain ⟨e, he, rfl⟩ := List.mem_map.mp new
          exact .inr (List.mem_map_of_mem ((fresh e).mpr ⟨he, mt (h.complete _).mp old⟩))
  once := by
    rw [List.map_append, List.nodup_append]
    refine ⟨h.once, (proper.unseen position).distinct, ?_⟩
    intro id hold id' hnew same
    obtain ⟨e, he, rfl⟩ := List.mem_map.mp hold
    obtain ⟨e', he', rfl⟩ := List.mem_map.mp hnew
    obtain ⟨mem, unknown⟩ := (mem_unseen_iff h.remembers later).mp he'
    -- the delivered event with this id has the timestamp of an answered one, which is the same
    obtain ⟨first, hfirst, place_eq⟩ :=
      List.mem_map.mp ((h.complete _).mp (List.mem_map_of_mem he))
    obtain ⟨time, id⟩ := Prod.mk.inj place_eq
    have time' := sameTime e' mem first hfirst (same.symm.trans id.symm)
    apply unknown
    rw [LogEvent.place, time', time, ← same]
    exact List.mem_map_of_mem he

/-! ### The token changes just when something is delivered -/

/-- The sample that fresh events should make: one event with their texts, if there are any. -/
def batch (fresh : List LogEvent) : Sample TailEvent :=
  if fresh.isEmpty then .pending
  else .emit [{ lines := (LogEntry.arranged (fresh.map LogEvent.entry)).map LogEntry.text }]

/-- A whole answer, without a token of the provider. -/
def whole (events : List LogEvent) : Reply LogAnswer := .ok ⟨events, none⟩

/-- What a whole answer changes in a query that carries a position, and what it gives to see. -/
theorem absorb_whole {old : List LogEvent} {q : LogQuery} (stands : Stands q position)
    (remembers : Remembers (old.map LogEvent.place) position) (later : NotBefore position events)
    (proper : Proper events) :
    absorb q (pageOfReply q (whole events)) =
      ({ q with token := (next position events).map encode },
        batch (unseen position events)) := by
  rw [whole, pageOfReply, pageOf_eq stands, absorb, batch]
  by_cases none : unseen position events = []
  · simp only [none, next_eq_self none, ← stands.token, if_true, List.isEmpty_nil]
  · have moves := encode_next_ne stands.carried remembers later proper none
    rw [← stands.token] at moves
    simp [moves, none, eventOf_eq]

/-! ### Runs -/

/-- What is assumed of the answers to some requests: their events are not older than was asked
for, in each answer they are proper, and an id always comes with the same timestamp. -/
structure WellAnswered (requests : List LogRequest) (answers : List (List LogEvent)) : Prop where
  since : ∀ x ∈ requests.zip answers, ∀ start ∈ x.1.start, ∀ e ∈ x.2, start ≤ e.timestamp
  proper : ∀ events ∈ answers, Proper events
  sameTime : ∀ e ∈ answers.flatten, ∀ e' ∈ answers.flatten, e.id = e'.id →
    e.timestamp = e'.timestamp

/-- The last answer among well answered ones. -/
theorem WellAnswered.of_snoc {requests : List LogRequest} {request : LogRequest}
    {answers : List (List LogEvent)}
    (h : WellAnswered (requests ++ [request]) (answers ++ [events]))
    (length : requests.length = answers.length) :
    WellAnswered requests answers ∧ Proper events ∧
      (∀ start ∈ request.start, ∀ e ∈ events, start ≤ e.timestamp) ∧
      ∀ e ∈ events, ∀ e' ∈ answers.flatten, e.id = e'.id → e.timestamp = e'.timestamp := by
  have zip : (requests ++ [request]).zip (answers ++ [events]) =
      requests.zip answers ++ [request].zip [events] := List.zip_append length
  have old : ∀ {e}, e ∈ answers.flatten → e ∈ (answers ++ [events]).flatten := fun he => by
    rw [List.flatten_append]; exact List.mem_append_left _ he
  have new : ∀ {e}, e ∈ events → e ∈ (answers ++ [events]).flatten := fun he => by
    rw [List.flatten_append, List.flatten_singleton]; exact List.mem_append_right _ he
  refine ⟨⟨?_, ?_, ?_⟩, ?_, ?_, ?_⟩
  · exact fun x hx => h.since x (zip ▸ List.mem_append_left _ hx)
  · exact fun a ha => h.proper a (List.mem_append_left _ ha)
  · exact fun e he e' he' => h.sameTime e (old he) e' (old he')
  · exact h.proper events (List.mem_append_right _ (List.mem_singleton.mpr rfl))
  · exact h.since (request, events) (zip ▸ List.mem_append_right _ (List.mem_singleton.mpr rfl))
  · exact fun e he e' he' => h.sameTime e (new he) e' (old he')

/-- What is delivered of the answers that a tail has taken. -/
def Delivers (past : List (List LogEvent)) (samples : List (Sample TailEvent)) (t : Tail LogReplies)
    (delivered : List (List LogEvent)) : Prop :=
  (∃ position, t.query.token = position.map encode ∧
      ExactlyOnce position past.flatten delivered.flatten) ∧
    samples = delivered.map batch ∧ List.Forall₂ List.Sublist delivered past

/-- As long as the answers are good, what is fresh in them has been delivered. -/
def Accounts (past : List (List LogEvent)) (samples : List (Sample TailEvent))
    (t : Tail LogReplies) : Prop :=
  t.store.requests.length = past.length ∧
    (WellAnswered t.store.requests past → ∃ delivered, Delivers past samples t delivered)

/-- A poll delivers what is fresh in its answer. -/
theorem Delivers.polled {past delivered : List (List LogEvent)}
    {samples : List (Sample TailEvent)} {t : Tail LogReplies}
    (h : Delivers past samples t delivered) (asked : Nat) (proper : Proper events)
    (since : ∀ start ∈ (requestOf (dated epoch asked t.query)).start,
      ∀ e ∈ events, start ≤ e.timestamp)
    (sameTime : ∀ e ∈ events, ∀ e' ∈ past.flatten, e.id = e'.id → e.timestamp = e'.timestamp) :
    ∃ fresh, Delivers (past ++ [events]) (samples ++ [(polled epoch asked (whole events) t).2])
      (polled epoch asked (whole events) t).1 (delivered ++ [fresh]) := by
  obtain ⟨⟨position, token, exact⟩, rfl, subs⟩ := h
  have stands : Stands (dated epoch asked t.query) position := ⟨exact.carried, token⟩
  have later := notBefore_of_since stands since
  have absorbed := absorb_whole stands exact.remembers later proper
  refine ⟨unseen position events, ⟨next position events, ?_, ?_⟩, ?_, ?_⟩
  · rw [polled_query, absorbed]
  · simpa using exact.answer later proper sameTime
  · rw [polled_sample, absorbed, List.map_append, List.map_singleton]
  · exact List.rel_append subs (.cons (unseen_sublist _ _) .nil)

/-- Every poll keeps the account. -/
theorem Accounts.polled {past : List (List LogEvent)} {samples : List (Sample TailEvent)}
    {t : Tail LogReplies} (h : Accounts past samples t) (asked : Nat) (events : List LogEvent) :
    Accounts (past ++ [events]) (samples ++ [(polled epoch asked (whole events) t).2])
      (polled epoch asked (whole events) t).1 := by
  obtain ⟨length, ih⟩ := h
  refine ⟨by simp [length], fun well => ?_⟩
  rw [polled_requests] at well
  obtain ⟨before, proper, since, sameTime⟩ := well.of_snoc length
  obtain ⟨delivered, delivers⟩ := ih before
  obtain ⟨fresh, delivers⟩ := delivers.polled asked proper since sameTime
  exact ⟨_, delivers⟩

end DeployWatch.Tail
