/-
# Nothing that the provider returned is lost

An event can vanish in two places: the position at which a query resumes may know it already, and
a page whose token is the one of the query counts as a repeated one.  Neither loses anything.  What
a position knows was delivered (`Tail.Backed`), and a page with an event that is not known never has
the token of its query, whether the two tokens are the provider's or this library's
(`Provider.token_ne_of_fresh`).  So every event of an answer is in the batch for that answer or was
in an earlier one, however the answers are cut into pages (`Tail.nothing_is_lost`).
-/

import DeployWatch.Proofs.Logs.ExactlyOnce
import DeployWatch.Proofs.Logs.Grouping
import DeployWatch.Proofs.Logs.Starts

namespace DeployWatch

open DeployWatch.Watch DeployWatch.Text LogPosition

namespace Provider

/-! ### A page with fresh events has a new token -/

/-- What is assumed of the answer to a request: the times are integers of 64 bits, the ids can stand
in a token, and a token of the provider is none of this library's and not the one just sent. -/
structure Honest (request : LogRequest) (answer : LogAnswer) : Prop where
  long : ∀ e ∈ answer.events, Decimal.IsLong e.timestamp
  ids : ∀ e ∈ answer.events, IsId e.id
  foreign : ∀ token, answer.token = some token → isOwn token = false
  moves : ∀ token, answer.token = some token → request.token ≠ some token

variable {q : LogQuery} {answer : LogAnswer}

/-- The position that a query resumes at can be written. -/
theorem carried_resumption (q : LogQuery) : Carried (resumption q).position := by
  intro p h
  rw [position_resumption, Option.bind_eq_some_iff] at h
  obtain ⟨token, -, read⟩ := h
  exact writable_of_decode? read

/-- Past fresh events of an honest answer, a position can be written. -/
theorem Honest.writable {p : LogPosition} (honest : Honest (requestOf q) answer)
    (moved : advance? (resumption q).position ((fresh q answer).map LogEvent.place) = some p) :
    p.Writable := by
  refine writable_of_advance? moved (carried_resumption q) fun x hx => ?_
  obtain ⟨e, he, rfl⟩ := List.mem_map.mp hx
  have mem : e ∈ answer.events := (unseen_sublist _ _).subset he
  exact ⟨honest.long e mem, honest.ids e mem⟩

/-- A page with a fresh event never has the token of its query. -/
theorem token_ne_of_fresh (honest : Honest (requestOf q) answer)
    (some_fresh : fresh q answer ≠ []) : (onward q answer).token ≠ q.token := by
  intro same
  rcases token_onward q answer with
    ⟨token, page, carried⟩ | ⟨-, ⟨p, moved, carried⟩ | ⟨none_fresh, -⟩⟩
  · -- the provider's own token would have been sent with the request
    have sent : q.token = some token := same.symm.trans carried
    refine honest.moves token page ?_
    unfold requestOf resumption
    simp [sent, honest.foreign token page]
  · -- the query would stand at the new position already, which knows its newest event
    have read : (resumption q).position = some p := by
      rw [position_resumption, ← same, carried, Option.bind_some,
        decode?_encode (honest.writable moved)]
    obtain ⟨⟨place, hplace, newest⟩, -⟩ := timestamp_of_advance? moved
    obtain ⟨e, he, rfl⟩ := List.mem_map.mp hplace
    obtain ⟨mem, unknown⟩ := mem_unseen.mp he
    have newest : e.timestamp = p.timestamp := newest
    have known : e.id ∈ p.seen :=
      (mem_seen_of_advance? moved e.id).mpr (.inr ⟨newest ▸ hplace, (honest.ids e mem).1⟩)
    have := unknown p read
    rw [hasSeen, newest] at this
    simp [known] at this
  · exact some_fresh none_fresh

end Provider

namespace Tail

open Provider

variable {epoch : Int} {q : LogQuery} {answer : LogAnswer}

/-- An honest answer moves the query on, and what is fresh in it is given to see. -/
theorem absorb_honest (honest : Honest (requestOf q) answer) :
    absorb q (pageOfReply q (.ok answer)) = (onward q answer, batch (fresh q answer)) := by
  refine Prod.ext (absorb_query q answer) ?_
  have entries : (pageOf q answer).entries = (fresh q answer).map LogEvent.entry := rfl
  rw [pageOfReply, absorb, batch, entries]
  by_cases none_fresh : fresh q answer = []
  · simp only [none_fresh, List.map_nil, List.isEmpty_nil, if_true, ite_self, apply_ite Prod.snd]
  · have moves : (pageOf q answer).token ≠ q.token := token_ne_of_fresh honest none_fresh
    simp [moves, none_fresh, eventOf_eq]

/-! ### What a position knows was delivered -/

/-- The position in a token knows only places of these events. -/
def Backed (token : Option String) (delivered : List LogEvent) : Prop :=
  ∀ p, token.bind decode? = some p →
    ∀ id ∈ p.seen, (p.timestamp, id) ∈ delivered.map LogEvent.place

/-- Once the fresh events are delivered, the token of the page is backed, too. -/
theorem Backed.onward {delivered : List LogEvent} (backed : Backed q.token delivered)
    (honest : Honest (requestOf q) answer) :
    Backed (onward q answer).token (delivered ++ fresh q answer) := by
  intro p read id seen
  rw [List.map_append, List.mem_append]
  rcases token_onward q answer with
    ⟨token, page, carried⟩ | ⟨-, ⟨next, moved, carried⟩ | ⟨-, stays⟩⟩
  · rw [carried, Option.bind_some, decode?_of_foreign (honest.foreign token page)] at read
    cases read
  · rw [carried, Option.bind_some, decode?_encode (honest.writable moved),
      Option.some.injEq] at read
    subst read
    rcases (mem_seen_of_advance? moved id).mp seen with ⟨before, old, time, kept⟩ | ⟨mem, -⟩
    · exact .inl (time ▸ backed before (position_resumption q ▸ old) id kept)
    · exact .inr mem
  · exact .inl (backed p (stays ▸ read) id seen)

/-- Every event is in the batch, or its place was delivered before. -/
def Covers (before batch events : List LogEvent) : Prop :=
  batch.Sublist events ∧
    ∀ e ∈ events, e ∈ batch ∨ e.place ∈ before.map LogEvent.place

/-- The fresh events cover an answer. -/
theorem Backed.covers {delivered : List LogEvent} (backed : Backed q.token delivered)
    (answer : LogAnswer) : Covers delivered (fresh q answer) answer.events := by
  refine ⟨unseen_sublist _ _, fun e he => ?_⟩
  by_cases mem : e ∈ fresh q answer
  · exact .inl mem
  · -- the position at which the query resumes has seen the event
    refine .inr ?_
    simp only [fresh, mem_unseen, he, true_and, not_forall] at mem
    obtain ⟨p, read, seen⟩ := mem
    rw [Bool.not_eq_false, hasSeen, Bool.and_eq_true, decide_eq_true_eq,
      List.contains_iff_mem] at seen
    rw [LogEvent.place, seen.1]
    exact backed p (position_resumption q ▸ read) e.id seen.2

/-! ### Any number of polls -/

/-- The batches cover the answers, each with those before it. -/
def CoversAll (past : List LogAnswer) (delivered : List (List LogEvent)) : Prop :=
  delivered.length = past.length ∧ ∀ i answer batch, past[i]? = some answer →
    delivered[i]? = some batch → Covers (delivered.take i).flatten batch answer.events

/-- One more batch covers one more answer. -/
theorem CoversAll.snoc {past : List LogAnswer} {delivered : List (List LogEvent)}
    {batch : List LogEvent} (covered : CoversAll past delivered)
    (covers : Covers delivered.flatten batch answer.events) :
    CoversAll (past ++ [answer]) (delivered ++ [batch]) := by
  obtain ⟨length, covered⟩ := covered
  refine ⟨by simp [length], fun i answer' batch' ha hb => ?_⟩
  rcases Nat.lt_trichotomy i past.length with lt | rfl | gt
  · rw [List.getElem?_append_left lt] at ha
    rw [List.getElem?_append_left (length ▸ lt)] at hb
    rw [List.take_append_of_le_length (by omega)]
    exact covered i answer' batch' ha hb
  · rw [List.getElem?_concat_length, Option.some.injEq] at ha
    rw [← length, List.getElem?_concat_length, Option.some.injEq] at hb
    rw [← length, List.take_left, ← ha, ← hb]
    exact covers
  · rw [List.getElem?_eq_none (by simp; omega)] at ha
    cases ha

/-- As long as the answers are honest, the batches given to see cover them, and the token is
backed. -/
def Keeps (past : List LogAnswer) (samples : List (Sample TailEvent)) (t : Tail LogReplies) :
    Prop :=
  t.store.requests.length = past.length ∧
    (Answered Honest t.store.requests past → ∃ delivered,
      samples = delivered.map batch ∧ Backed t.query.token delivered.flatten ∧
        CoversAll past delivered)

/-- Every poll keeps what it was given. -/
theorem Keeps.polled {past : List LogAnswer} {samples : List (Sample TailEvent)}
    {t : Tail LogReplies} (h : Keeps past samples t) (asked : Nat) (answer : LogAnswer) :
    Keeps (past ++ [answer]) (samples ++ [(polled epoch asked (.ok answer) t).2])
      (polled epoch asked (.ok answer) t).1 := by
  obtain ⟨length, keeps⟩ := h
  refine ⟨by simp [length], fun well => ?_⟩
  rw [polled_requests] at well
  obtain ⟨before, honest⟩ := well.of_snoc length
  obtain ⟨delivered, rfl, backed, covered⟩ := keeps before
  have absorbed := absorb_honest honest
  have backed : Backed (dated epoch asked t.query).token delivered.flatten := backed
  refine ⟨delivered ++ [fresh (dated epoch asked t.query) answer], ?_, ?_, ?_⟩
  · rw [polled_sample, absorbed, List.map_append, List.map_singleton]
  · rw [polled_query, absorbed, List.flatten_append, List.flatten_singleton]
    exact backed.onward honest
  · exact covered.snoc (backed.covers answer)

end Tail

end DeployWatch
