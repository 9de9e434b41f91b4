/-
# From where on a tail asks

The start of a request is not kept anywhere: it is read off the token of the query each time, and
a token that encodes no position leads back to the start of the tail itself.  An answer without a
token of the provider never moves the start back, for the next position is among its events or is
the old one (`Provider.start_le_of_whole`).  An answer with such a token replaces the position, and
what it had been is forgotten (`Provider.start_of_page`).

So the starts of a tail move forward except at tokens of the provider, and there just when the
token leads back (`Tail.starts_move_forward_iff`).  A page that follows a position is asked for from
the start of the tail again (`Tail.page_after_position_moves_back`).
-/

import DeployWatch.Proofs.Logs.Tailing

namespace DeployWatch

open DeployWatch.Watch DeployWatch.Text LogPosition

namespace Provider

/-! ### The start after an answer -/

/-- The start of a request with this token, if the tail itself starts at `first`. -/
def startAt (first : Int) (token : Option String) : Int :=
  ((token.bind decode?).map timestamp).getD first

/-- At the token of a position a request starts at its time. -/
theorem startAt_encode {p : LogPosition} (long : Decimal.IsLong p.timestamp) (first : Int) :
    startAt first (some p.encode) = p.timestamp := by
  rw [startAt, Option.bind_some, decode?_encode_eq long]
  rfl

/-- The query that carries the token of its page. -/
def onward (q : LogQuery) (answer : LogAnswer) : LogQuery :=
  { q with token := (pageOf q answer).token }

/-- The start of a request is the one at its token. -/
theorem start_requestOf_eq {q : LogQuery} {first : Int} (fixed : q.start = some first) :
    (requestOf q).start = some (startAt first q.token) := by
  rw [start_requestOf, fixed, startAt]
  cases q.token.bind decode? <;> rfl

/-- The events of an answer to this request are not older than was asked for, and their times are
integers of 64 bits. -/
def Since (request : LogRequest) (answer : LogAnswer) : Prop :=
  ∀ e ∈ answer.events, Decimal.IsLong e.timestamp ∧ ∀ start ∈ request.start, start ≤ e.timestamp

variable {q : LogQuery} {first : Int} {answer : LogAnswer}

/-- The events of an answer that the query has not seen. -/
def fresh (q : LogQuery) (answer : LogAnswer) : List LogEvent :=
  unseen (resumption q).position answer.events

/-- The token of a page is one of the provider, or that of a new position, or there is no fresh
event and it stays. -/
theorem token_onward (q : LogQuery) (answer : LogAnswer) :
    (∃ token, answer.token = some token ∧ (onward q answer).token = some token) ∨
    answer.token = none ∧ ((∃ p : LogPosition,
      advance? (resumption q).position ((fresh q answer).map LogEvent.place) = some p ∧
        (onward q answer).token = some p.encode) ∨
      fresh q answer = [] ∧ (onward q answer).token = q.token) := by
  unfold onward pageOf fresh
  cases page : answer.token with
  | some token => exact .inl ⟨token, rfl, rfl⟩
  | none =>
    refine .inr ⟨rfl, ?_⟩
    cases moved : advance? (resumption q).position
        ((unseen (resumption q).position answer.events).map LogEvent.place) with
    | some p => exact .inl ⟨p, rfl, by simp only [moved]⟩
    | none =>
      exact .inr ⟨List.map_eq_nil_iff.mp (advance?_eq_none.mp moved), by simp only [moved]⟩

/-- A token of the provider takes the place of the one before. -/
theorem start_of_page (fixed : q.start = some first) {token : String}
    (page : answer.token = some token) :
    (requestOf (onward q answer)).start = some (startAt first (some token)) := by
  have carried : (onward q answer).token = some token := by simp [onward, pageOf, page]
  rw [← carried]
  exact start_requestOf_eq fixed

/-- Without a token of the provider the start does not move back. -/
theorem start_le_of_whole (fixed : q.start = some first) (since : Since (requestOf q) answer)
    (whole : answer.token = none) :
    startAt first q.token ≤ startAt first (onward q answer).token := by
  rcases token_onward q answer with ⟨token, page, -⟩ | ⟨-, ⟨p, moved, carried⟩ | ⟨-, same⟩⟩
  · rw [whole] at page
    cases page
  · -- the new position has the time of one of the events
    obtain ⟨⟨place, mem, reached⟩, -⟩ := timestamp_of_advance? moved
    obtain ⟨e, he, rfl⟩ := List.mem_map.mp mem
    obtain ⟨long, after⟩ := since e ((unseen_sublist _ _).subset he)
    have reached : e.timestamp = p.timestamp := reached
    have later : startAt first q.token ≤ e.timestamp := after _ (start_requestOf_eq fixed)
    rw [carried, startAt_encode (reached ▸ long), ← reached]
    exact later
  · rw [same]

end Provider

namespace Tail

open Provider

variable {epoch first : Int} {requests : List LogRequest} {past answers : List LogAnswer}

/-! ### One request after the other -/

/-- The second request starts before the first one just when a token of the provider leads back. -/
def Follows (first : Int) (a : LogRequest) (answer : LogAnswer) (b : LogRequest) : Prop :=
  ∃ before after, a.start = some before ∧ b.start = some after ∧
    (before ≤ after ↔ ∀ token, answer.token = some token → before ≤ startAt first (some token))

/-- A query and the one that carries the token of its page follow one another. -/
theorem follows_onward {q : LogQuery} {answer : LogAnswer} (fixed : q.start = some first)
    (since : Since (requestOf q) answer) :
    Follows first (requestOf q) answer (requestOf (onward q answer)) := by
  refine ⟨_, _, start_requestOf_eq fixed, start_requestOf_eq (q := onward q answer) fixed, ?_⟩
  cases page : answer.token with
  | none =>
    refine iff_of_true (start_le_of_whole fixed since page) ?_
    rintro _ ⟨⟩
  | some token =>
    have back : startAt first (onward q answer).token = startAt first (some token) :=
      Option.some.inj ((start_requestOf_eq (q := onward q answer) fixed).symm.trans
        (start_of_page fixed page))
    simp only [Option.some.injEq, forall_eq', back]

/-- The requests follow one another with these answers between them. -/
def Course (first : Int) (past : List LogAnswer) (requests : List LogRequest) : Prop :=
  ∀ i answer a b, past[i]? = some answer → requests[i]? = some a → requests[i + 1]? = some b →
    Follows first a answer b

/-- One more request follows. -/
theorem Course.snoc {a b : LogRequest} {answer : LogAnswer}
    (course : Course first past (requests ++ [a])) (length : requests.length = past.length)
    (follows : Follows first a answer b) :
    Course first (past ++ [answer]) (requests ++ [a] ++ [b]) := by
  intro i answer' a' b' hi ha hb
  rcases Nat.lt_trichotomy i past.length with lt | rfl | gt
  · rw [List.getElem?_append_left lt] at hi
    rw [List.getElem?_append_left (by simp; omega)] at ha hb
    exact course i answer' a' b' hi ha hb
  · rw [List.getElem?_concat_length, Option.some.injEq] at hi
    rw [← length, List.append_assoc, List.getElem?_append_right le_rfl, Nat.sub_self] at ha
    rw [← length, List.append_assoc, List.getElem?_append_right (Nat.le_add_right _ 1),
      Nat.add_sub_cancel_left] at hb
    obtain rfl : a = a' := by simpa using ha
    obtain rfl : b = b' := by simpa using hb
    exact hi ▸ follows
  · rw [List.getElem?_eq_none (by simp; omega)] at hi
    cases hi

/-- Where fewer requests were sent the course is the same. -/
theorem Course.of_shorter {more : List LogRequest} (course : Course first past more)
    (part : requests <+: more) : Course first past requests := by
  intro i answer a b hi ha hb
  obtain ⟨rest, rfl⟩ := part
  have lt : i + 1 < requests.length := (List.getElem?_eq_some_iff.mp hb).1
  refine course i answer a b hi ?_ ?_
  · rw [List.getElem?_append_left (by omega)]; exact ha
  · rw [List.getElem?_append_left lt]; exact hb

/-! ### Any number of polls -/

/-- The requests of a tail and the one that it sends next start at `first` and follow one another,
as long as the answers are as asked for. -/
def Proceeds (epoch : Int) (past : List LogAnswer) (t : Tail LogReplies) : Prop :=
  t.store.requests.length = past.length ∧ ∀ asked, ∃ first,
    (dated epoch asked t.query).start = some first ∧
    ((t.store.requests ++ [requestOf (dated epoch asked t.query)]).head?.bind LogRequest.start =
      some first) ∧
    (Answered Since t.store.requests past →
      Course first past (t.store.requests ++ [requestOf (dated epoch asked t.query)]))

/-- Once its start is fixed a query is not dated again. -/
theorem dated_of_start {q : LogQuery} (fixed : q.start = some first) (now : Nat) :
    dated epoch now q = q := by
  rw [dated, fixed, Option.getD_some, ← fixed]

/-- A query goes on with the token of its page, whether that is a new one or not. -/
theorem absorb_query (q : LogQuery) (answer : LogAnswer) :
    (absorb q (pageOfReply q (.ok answer))).1 = onward q answer := by
  rw [pageOfReply, absorb, onward]
  split
  · next same => rw [same]
  · split <;> rfl

/-- A tail that has not begun proceeds: its first request is at its own start. -/
theorem proceeds_start (store : LogReplies) (none_yet : store.requests = [])
    (settings : LogSettings) (group : String) (streams : List String) :
    Proceeds epoch [] (ofStore store settings group streams) := by
  refine ⟨by simp [ofStore, none_yet], fun asked => ⟨epoch + asked, rfl, ?_, fun _ => ?_⟩⟩
  · simp only [ofStore, none_yet]
    rfl
  · intro i answer a b hi
    cases hi

/-- A tail proceeds with every poll. -/
theorem Proceeds.polled {t : Tail LogReplies} (h : Proceeds epoch past t) (asked : Nat)
    (answer : LogAnswer) :
    Proceeds epoch (past ++ [answer]) (polled epoch asked (.ok answer) t).1 := by
  obtain ⟨length, proceeds⟩ := h
  obtain ⟨first, fixed, head, course⟩ := proceeds asked
  have query : (Tail.polled epoch asked (.ok answer) t).1.query =
      onward (dated epoch asked t.query) answer := absorb_query _ _
  have again : ∀ next, dated epoch next (onward (dated epoch asked t.query) answer) =
      onward (dated epoch asked t.query) answer := dated_of_start fixed
  refine ⟨by simp [length], fun next => ⟨first, ?_, ?_, fun well => ?_⟩⟩
  · rw [query, again]
    exact fixed
  · rw [polled_requests, List.head?_append, Option.or_of_isSome (by simp), head]
  · rw [polled_requests] at well ⊢
    obtain ⟨before, since⟩ := well.of_snoc length
    rw [query, again]
    exact (course before).snoc length (follows_onward fixed since)

/-- **From where on a tail asks.**  As long as no event is older than was asked for, a request of a
tail starts before the one sent before it just when the answer in between came with a token of the
provider that leads back: to the time in it, if it encodes a position, and else to the start of the
very first request. -/
theorem starts_move_forward_iff (answers : List LogAnswer) (epoch : Int) (settings : LogSettings)
    (group : String) (streams : List String) (capacity : Nat) (cancelled : Bool)
    {n : Net (Poller (Tail LogReplies) TailEvent) TailEvent}
    (run : Net.Steps (task LogReplies.store epoch settings)
      (start { replies := answers.map .ok } settings group streams capacity cancelled) n)
    (enough : n.task.samples.length ≤ answers.length)
    (since : Answered Since n.task.sampler.store.requests (answers.take n.task.samples.length))
    {i : Nat} {a b : LogRequest} (ha : n.task.sampler.store.requests[i]? = some a)
    (hb : n.task.sampler.store.requests[i + 1]? = some b) :
    ∃ first before after answer,
      (n.task.sampler.store.requests.head?.bind LogRequest.start) = some first ∧
      a.start = some before ∧ b.start = some after ∧ answers[i]? = some answer ∧
      (before ≤ after ↔
        ∀ token, answer.token = some token → before ≤ startAt first (some token)) := by
  obtain ⟨t, asked, yields, early, late⟩ := requests_of_steps run
  obtain ⟨⟨length, proceeds⟩, -⟩ := yields_induction
    (P := fun past _ t => Proceeds epoch past t) rfl (proceeds_start _ rfl _ _ _)
    (fun past answer _ t asked _ h => h.polled asked answer) yields enough
  obtain ⟨first, -, head, course⟩ := proceeds asked
  have taken : (answers.take n.task.samples.length).length = n.task.samples.length := by
    rw [List.length_take, Nat.min_eq_left enough]
  -- the second request was sent after the answer to the first one
  have answered_i : i < n.task.samples.length := by
    have sent : i + 1 < n.task.sampler.store.requests.length := (List.getElem?_eq_some_iff.mp hb).1
    have most := late.length_le
    rw [List.length_append, List.length_singleton, length, taken] at most
    omega
  have answer_i : answers[i]? = some answers[i] := List.getElem?_eq_getElem (by omega)
  have well : Answered Since t.store.requests (answers.take n.task.samples.length) := by
    obtain ⟨more, sent⟩ := early
    rw [← sent] at since
    exact since.of_shorter length
  obtain ⟨before, after, start_a, start_b, law⟩ := (course well).of_shorter late i answers[i] a b
    (by rw [List.getElem?_take_of_lt answered_i, answer_i]) ha hb
  refine ⟨first, before, after, answers[i], ?_, start_a, start_b, answer_i, law⟩
  obtain ⟨more, sent⟩ := late
  have some_request : n.task.sampler.store.requests.head?.isSome = true := by
    cases h : n.task.sampler.store.requests with
    | nil => rw [h] at ha; cases ha
    | cons => rfl
  rw [← sent, List.head?_append, Option.or_of_isSome some_request] at head
  exact head

/-- An event, then an empty page of the provider that has a next one, then nothing. -/
def eventThenPage : List LogAnswer :=
  [⟨[⟨"app", 5000, "a", "e1"⟩], none⟩, ⟨[], some "p1"⟩, ⟨[], none⟩]

/-- A tail with these answers after its third poll. -/
def tailedThrice : Net (Poller (Tail LogReplies) TailEvent) TailEvent :=
  (((((start { replies := eventThenPage.map .ok } {} "group" [] 4 false).settle
    (task LogReplies.store 1000 {}) 3).advance 1000).settle
    (task LogReplies.store 1000 {}) 3).advance 2000).settle (task LogReplies.store 1000 {}) 3

theorem steps_tailedThrice : Net.Steps (task LogReplies.store 1000 {})
    (start { replies := eventThenPage.map .ok } {} "group" [] 4 false) tailedThrice := by
  apply Net.Steps.settle_at
  · apply Net.Steps.settle_at
    · exact Net.steps_settle _ 3 _
    all_goals decide +kernel
  all_goals decide +kernel

theorem starts_tailedThrice : tailedThrice.task.sampler.store.requests.map LogRequest.start =
    [some 1000, some 5000, some 1000] := by decide +kernel

theorem since_tailedThrice :
    Answered Since tailedThrice.task.sampler.store.requests eventThenPage := by
  unfold Answered Since
  decide +kernel

/-- From the first request to the second the start moves forward, to the event, and from there to
the third it moves back. -/
theorem start_moves_forward_then_back :
    tailedThrice.task.samples.length = eventThenPage.length ∧
    Answered Since tailedThrice.task.sampler.store.requests eventThenPage ∧
    ∃ a b c, tailedThrice.task.sampler.store.requests = [a, b, c] ∧
      (∃ before after, a.start = some before ∧ b.start = some after ∧ before ≤ after) ∧
      ∃ before after, b.start = some before ∧ c.start = some after ∧ ¬ before ≤ after := by
  have polls : tailedThrice.task.samples.length = eventThenPage.length := by decide +kernel
  have starts := starts_tailedThrice
  have law : ∀ {i a b}, tailedThrice.task.sampler.store.requests[i]? = some a →
      tailedThrice.task.sampler.store.requests[i + 1]? = some b → _ := fun {i a b} ha hb =>
    starts_move_forward_iff eventThenPage 1000 {} "group" [] 4 false steps_tailedThrice
      (le_of_eq polls) (by rw [polls, List.take_length]; exact since_tailedThrice) (i := i) ha hb
  refine ⟨polls, since_tailedThrice, ?_⟩
  generalize tailedThrice.task.sampler.store.requests = requests at starts law
  obtain ⟨a, _, rfl, start_a, starts⟩ := List.map_eq_cons_iff.mp starts
  obtain ⟨b, _, rfl, start_b, starts⟩ := List.map_eq_cons_iff.mp starts
  obtain ⟨c, _, rfl, start_c, starts⟩ := List.map_eq_cons_iff.mp starts
  obtain rfl := List.map_eq_nil_iff.mp starts
  refine ⟨a, b, c, rfl, ?_, ?_⟩
  · obtain ⟨first, before, after, answer, -, ha, hb, answered, forward⟩ := @law 0 a b rfl rfl
    obtain rfl := Option.some.inj answered
    exact ⟨before, after, ha, hb, forward.mpr (by rintro _ ⟨⟩)⟩
  · obtain ⟨first, before, after, answer, hf, hb, hc, answered, forward⟩ := @law 1 b c rfl rfl
    obtain rfl := Option.some.inj answered
    refine ⟨before, after, hb, hc, fun le => ?_⟩
    have back := forward.mp le "p1" rfl
    obtain rfl : 1000 = first := Option.some.inj (start_a.symm.trans hf)
    obtain rfl : 5000 = before := Option.some.inj (start_b.symm.trans hb)
    exact absurd back (by decide +kernel)

/-- **A page after a position is asked for from the very start.**  The provider answers with an
event at 5000 and then, when it is asked for events from 5000 on, with a token for the next page;
that page is asked for from 1000 on, where the tail began. -/
theorem page_after_position_moves_back :
    Net.Steps (task LogReplies.store 1000 {})
      (start { replies := eventThenPage.map .ok } {} "group" [] 4 false) tailedThrice ∧
    Answered Since tailedThrice.task.sampler.store.requests eventThenPage ∧
    tailedThrice.task.sampler.store.requests.map LogRequest.start =
      [some 1000, some 5000, some 1000] ∧
    ¬ List.IsChain (· ≤ ·)
      (tailedThrice.task.sampler.store.requests.filterMap LogRequest.start) := by
  refine ⟨steps_tailedThrice, since_tailedThrice, starts_tailedThrice, fun chain => ?_⟩
  have starts : tailedThrice.task.sampler.store.requests.filterMap LogRequest.start =
      [1000, 5000, 1000] := by
    have := congrArg (List.filterMap id) starts_tailedThrice
    rwa [List.filterMap_map] at this
  rw [starts] at chain
  exact absurd chain (by decide)

end Tail

end DeployWatch
