/-
# Where the provider cuts its pages

A list of events can be answered as one page or cut into several, each with the token of the next.
While such tokens are followed the position is not carried along.  So a page after the first is
not compared with what was seen before, and the position after the last page knows only of that
page: events of the newest millisecond that stood on earlier pages are forgotten, and they are
delivered again by the next query (`second_page_forgets_first`).

The main statement, `pages_transparent_iff`, says when this does not happen: the pages give the
entries of the one page and lead to the same place just when the cut is clean (`CleanCut`).
-/

import Mathlib.Data.List.Nodup
import DeployWatch.Proofs.Logs.Position

namespace DeployWatch.Provider

open Text LogPosition

variable {q : LogQuery} {position : Option LogPosition} {first : List LogEvent}
  {later init : List (String × List LogEvent)} {token : String} {last : List LogEvent}

/-! ### Pages -/

/-- The answers when a list of events is cut into pages; every page but the first comes with the
token that leads to it. -/
def cut (first : List LogEvent) : List (String × List LogEvent) → List LogAnswer
  | [] => [⟨first, none⟩]
  | (token, page) :: rest => ⟨first, some token⟩ :: cut page rest

/-- The list of events that is cut. -/
def uncut (first : List LogEvent) (later : List (String × List LogEvent)) : List LogEvent :=
  first ++ later.flatMap (·.2)

/-- A query sent again and again, each time with the token of the page before: the requests and
the pages. -/
def followed (q : LogQuery) : List LogAnswer → List (LogRequest × LogPage)
  | [] => []
  | answer :: rest =>
    let page := pageOf q answer
    (requestOf q, page) :: followed { q with token := page.token } rest

/-- The query after the last page. -/
def queryAfter (q : LogQuery) : List LogAnswer → LogQuery
  | [] => q
  | answer :: rest => queryAfter { q with token := (pageOf q answer).token } rest

/-- The entries of all pages. -/
def entriesOf (q : LogQuery) (answers : List LogAnswer) : List LogEntry :=
  (followed q answers).flatMap (·.2.entries)

/-- The ids that a query skips. -/
def skipped (q : LogQuery) : List String := ((resumption q).position.map seen).getD []

/-- Two queries resume at the same time and skip the same ids. -/
def SamePlace (a b : LogQuery) : Prop :=
  (resumption a).start = (resumption b).start ∧ ∀ id, id ∈ skipped a ↔ id ∈ skipped b

/-- Following the pages is a sequence of queries that carry the last token. -/
theorem replay_eq_followed (q : LogQuery) (answers : List LogAnswer) :
    replay q.token (answers.map fun answer => (q, .last, .ok answer)) =
      (followed q answers).map fun x => (x.1, .ok x.2) := by
  have same : ∀ (t : Option String), replay t (answers.map fun answer => (q, .last, .ok answer)) =
      (followed { q with token := t } answers).map fun x => (x.1, .ok x.2) := by
    induction answers with
    | nil => intro t; rfl
    | cons answer rest ih =>
      intro t
      simp only [List.map_cons, replay, followed, pageOfReply]
      rw [ih]
  exact same q.token

/-! ### What is left of the position on the way -/

/-- A token of the provider is handed back to it, and no position is kept. -/
theorem resumption_foreign (own : isOwn token = false) :
    resumption { q with token := some token } = ⟨q.start, some token, none⟩ := by
  simp [resumption, own]

/-- Every request but the first asks for the next page. -/
theorem requests_of_cut (own : ∀ x ∈ later, isOwn x.1 = false) :
    (followed q (cut first later)).map (·.1.token) =
      (resumption q).token :: later.map (some ·.1) := by
  induction later generalizing q first with
  | nil => rfl
  | cons x rest ih =>
    obtain ⟨token, page⟩ := x
    have foreign := resumption_foreign (q := q) (own _ List.mem_cons_self)
    have rest_eq : (followed { q with token := some token } (cut page rest)).map (·.1.token) =
        (resumption { q with token := some token }).token :: rest.map (some ·.1) :=
      ih fun x hx => own x (List.mem_cons_of_mem _ hx)
    rw [foreign] at rest_eq
    simp only [cut, followed, List.map_cons, requestOf]
    exact congrArg _ rest_eq

/-- Only the first page is compared with the position. -/
theorem entriesOf_cut (own : ∀ x ∈ later, isOwn x.1 = false) :
    entriesOf q (cut first later) =
      (unseen (resumption q).position first ++ later.flatMap (·.2)).map LogEvent.entry := by
  induction later generalizing q first with
  | nil => simp [entriesOf, cut, followed, pageOf]
  | cons x rest ih =>
    obtain ⟨token, page⟩ := x
    have foreign := resumption_foreign (q := q) (own _ List.mem_cons_self)
    have rest_eq : entriesOf { q with token := some token } (cut page rest) =
        (unseen (resumption { q with token := some token }).position page ++
          rest.flatMap (·.2)).map LogEvent.entry :=
      ih fun x hx => own x (List.mem_cons_of_mem _ hx)
    rw [foreign] at rest_eq
    simp only [cut, entriesOf, followed, List.flatMap_cons, List.map_append, pageOf] at rest_eq ⊢
    rw [rest_eq]
    simp [unseen]

/-- The query after the pages is the one after the last of them. -/
theorem queryAfter_cut :
    queryAfter q (cut first (init ++ [(token, last)])) =
      queryAfter { q with token := some token } [⟨last, none⟩] := by
  induction init generalizing q first with
  | nil => rfl
  | cons x rest ih =>
    obtain ⟨t, page⟩ := x
    exact @ih { q with token := some t } page

/-- The last page leads to a position if it has events, and else its own token stays. -/
theorem queryAfter_foreign (own : isOwn token = false) :
    queryAfter { q with token := some token } [⟨last, none⟩] =
      { q with
        token := ((advance? none (last.map LogEvent.place)).map encode).or (some token) } := by
  simp only [queryAfter, pageOf, resumption_foreign own, unseen]
  cases advance? none (last.map LogEvent.place) <;> rfl

/-! ### Places -/

/-- The place of a query that carries a position. -/
theorem place_of_carried (q : LogQuery) (carried : Carried position) :
    (resumption { q with token := position.map encode }).start =
        (position.map timestamp).or q.start ∧
      skipped { q with token := position.map encode } = (position.map seen).getD [] := by
  have eq := resumption_eq (q := { q with token := position.map encode }) ⟨carried, rfl⟩
  exact ⟨by rw [eq], by rw [skipped, eq]⟩

/-- Events in the order of their times. -/
def InOrder (events : List LogEvent) : Prop :=
  events.Pairwise fun a b => a.timestamp ≤ b.timestamp

instance (events : List LogEvent) : Decidable (InOrder events) :=
  inferInstanceAs (Decidable (events.Pairwise _))

/-- The last of some events in order is the newest. -/
theorem InOrder.le_last {events : List LogEvent} {newest : LogEvent}
    (order : InOrder (events ++ [newest])) :
    ∀ e ∈ events ++ [newest], e.timestamp ≤ newest.timestamp := by
  intro e he
  rcases List.mem_append.mp he with he | he
  · exact (List.pairwise_append.mp order).2.2 e he newest (List.mem_singleton.mpr rfl)
  · obtain rfl := List.mem_singleton.mp he; exact le_rfl

/-- Past events of which one is the newest, the position has its timestamp. -/
theorem exists_advance? (position : Option LogPosition) {events : List LogEvent}
    {newest : LogEvent} (mem : newest ∈ events)
    (le : ∀ e ∈ events, e.timestamp ≤ newest.timestamp) :
    ∃ p, advance? position (events.map LogEvent.place) = some p ∧
      p.timestamp = newest.timestamp := by
  cases h : advance? position (events.map LogEvent.place) with
  | none =>
    rw [advance?_eq_none, List.map_eq_nil_iff] at h
    rw [h] at mem
    cases mem
  | some p =>
    obtain ⟨⟨x, hx, reached⟩, top⟩ := timestamp_of_advance? h
    obtain ⟨e, he, rfl⟩ := List.mem_map.mp hx
    exact ⟨p, rfl, le_antisymm (reached ▸ le e he) (top _ (List.mem_map_of_mem mem))⟩

/-! ### The same entries -/

theorem unseen_append (position : Option LogPosition) (a b : List LogEvent) :
    unseen position (a ++ b) = unseen position a ++ unseen position b := by
  cases position with
  | none => rfl
  | some p => exact List.filter_append ..

/-- None of the events is known to the position. -/
def Unknown (position : Option LogPosition) (events : List LogEvent) : Prop :=
  ∀ e ∈ events, ∀ p, position = some p → p.hasSeen e.timestamp e.id = false

theorem unseen_eq_self {events : List LogEvent} (unknown : Unknown position events) :
    unseen position events = events := by
  cases position with
  | none => rfl
  | some p =>
    refine List.filter_eq_self.mpr fun e he => ?_
    rw [unknown e he p rfl]
    rfl

/-- The pages give the entries of the one page just when the later ones hold nothing known. -/
theorem entriesOf_cut_eq_iff (stands : Stands q position)
    (own : ∀ x ∈ later, isOwn x.1 = false) :
    entriesOf q (cut first later) = entriesOf q [⟨uncut first later, none⟩] ↔
      Unknown position (later.flatMap (·.2)) := by
  have whole : entriesOf q [⟨uncut first later, none⟩] =
      (unseen position (uncut first later)).map LogEvent.entry := by
    simp [entriesOf, followed, pageOf_eq stands]
  rw [entriesOf_cut own, whole, resumption_eq stands, uncut, unseen_append,
    List.map_append, List.map_append, List.append_cancel_left_eq]
  constructor
  · intro same e he
    have length := congrArg List.length same
    rw [List.length_map, List.length_map] at length
    have all := (unseen_sublist position (later.flatMap (·.2))).eq_of_length length.symm
    exact (mem_unseen.mp (all ▸ he)).2
  · intro unknown
    rw [unseen_eq_self unknown]

/-! ### The same place -/

/-- The query after one page carries the next position. -/
theorem queryAfter_whole (stands : Stands q position) (events : List LogEvent) :
    queryAfter q [⟨events, none⟩] = { q with token := (next position events).map encode } := by
  rw [queryAfter, queryAfter, pageOf_eq stands]

/-- After an empty last page the query is at its own start and skips nothing. -/
theorem samePlace_iff_of_empty {events : List LogEvent} (stands : Stands q position)
    (proper : Proper events) (own : isOwn token = false) :
    SamePlace (queryAfter { q with token := some token } [⟨[], none⟩])
        (queryAfter q [⟨events, none⟩]) ↔
      events = [] ∧ (resumption q).start = q.start ∧ skipped q = [] := by
  obtain ⟨start, skips⟩ := place_of_carried q (carried_next stands.carried proper)
  rw [SamePlace, queryAfter_whole stands, start, skips, queryAfter_foreign own]
  have foreign := resumption_foreign (q := q) own
  have nothing : skipped { q with token := some token } = [] := by rw [skipped, foreign]; rfl
  change (resumption { q with token := some token }).start = _ ∧
    (∀ id, id ∈ skipped { q with token := some token } ↔ _) ↔ _
  rw [foreign, nothing]
  by_cases fresh : unseen position events = []
  · -- the position stays, and its place is the one compared with
    have before : (resumption q).start = (position.map timestamp).or q.start ∧
        skipped q = (position.map seen).getD [] := by
      rw [skipped, resumption_eq stands]
      exact ⟨rfl, rfl⟩
    rw [next_eq_self fresh, ← before.1, ← before.2]
    constructor
    · rintro ⟨same, none⟩
      have empty : skipped q = [] := List.eq_nil_iff_forall_not_mem.mpr fun id hid => by
        cases (none id).mpr hid
      refine ⟨?_, same.symm, empty⟩
      rw [before.2] at empty
      have unknown : Unknown position events := by
        rintro e - p rfl
        have : p.seen = [] := empty
        simp [hasSeen, this]
      rw [← unseen_eq_self unknown, fresh]
    · rintro ⟨-, same, none⟩
      exact ⟨same.symm, fun id => by rw [none]⟩
  · -- a fresh event of the newest timestamp is skipped from now on
    have some_event : events ≠ [] := by rintro rfl; exact fresh (by cases position <;> rfl)
    refine iff_of_false ?_ fun h => some_event h.1
    rintro ⟨-, none⟩
    cases h : advance? position ((unseen position events).map LogEvent.place) with
    | none => exact fresh (List.map_eq_nil_iff.mp (advance?_eq_none.mp h))
    | some p =>
      obtain ⟨⟨x, hx, reached⟩, -⟩ := timestamp_of_advance? h
      obtain ⟨e, he, rfl⟩ := List.mem_map.mp hx
      have known : e.id ∈ p.seen :=
        (mem_seen_iff_event (proper.unseen position) h e.id).mpr (.inr ⟨e, he, reached, rfl⟩)
      have moved : next position events = some p := by rw [next, h]; rfl
      rw [moved] at none
      cases (none e.id).mpr known

/-- After a page with the newest event the query starts at its time and skips the ids of that
time, those that it has skipped before among them. -/
theorem place_after_page {events : List LogEvent} {newest : LogEvent} (stands : Stands q position)
    (proper : Proper events) (fresh : newest ∈ unseen position events)
    (le : ∀ e ∈ events, e.timestamp ≤ newest.timestamp) :
    (resumption (queryAfter q [⟨events, none⟩])).start = some newest.timestamp ∧
      ∀ id, id ∈ skipped (queryAfter q [⟨events, none⟩]) ↔
        (∃ p, position = some p ∧ p.timestamp = newest.timestamp ∧ id ∈ p.seen) ∨
          ∃ e ∈ unseen position events, e.timestamp = newest.timestamp ∧ e.id = id := by
  obtain ⟨p, advance, time⟩ := exists_advance? position fresh
    fun e he => le e ((unseen_sublist _ _).subset he)
  have moved : next position events = some p := by rw [next, advance]; rfl
  obtain ⟨start, skips⟩ := place_of_carried q (carried_next stands.carried proper)
  rw [queryAfter_whole stands, start, skips, moved, ← time]
  exact ⟨rfl, mem_seen_iff_event (proper.unseen position) advance⟩

/-- After a last page with the newest event the query starts at its time and skips the ids of that
time on that page. -/
theorem place_after_last {newest : LogEvent} (own : isOwn token = false) (proper : Proper last)
    (mem : newest ∈ last) (le : ∀ e ∈ last, e.timestamp ≤ newest.timestamp) :
    (resumption (queryAfter { q with token := some token } [⟨last, none⟩])).start =
        some newest.timestamp ∧
      ∀ id, id ∈ skipped (queryAfter { q with token := some token } [⟨last, none⟩]) ↔
        ∃ e ∈ last, e.timestamp = newest.timestamp ∧ e.id = id := by
  obtain ⟨p, advance, time⟩ := exists_advance? none mem le
  have carried : Carried (some p) := by
    rw [← advance]
    exact carried_advance? (fun _ h => by cases h) proper
  obtain ⟨start, skips⟩ := place_of_carried q carried
  rw [queryAfter_foreign own, advance, Option.map_some, Option.some_or]
  rw [Option.map_some] at start skips
  rw [start, skips, ← time]
  refine ⟨rfl, fun id => (mem_seen_iff_event proper advance id).trans ?_⟩
  simp

/-- The ids of the newest time on the last page are all those to skip just when what was on the
pages before, or was seen before, is older. -/
theorem skips_iff_older {early : List LogEvent} {newest : LogEvent}
    (proper : Proper (early ++ last)) (mem : newest ∈ last)
    (le : ∀ e ∈ early ++ last, e.timestamp ≤ newest.timestamp)
    (later : NotBefore position (early ++ last)) (unknown : Unknown position last) :
    (∀ id, (∃ e ∈ last, e.timestamp = newest.timestamp ∧ e.id = id) ↔
        (∃ p, position = some p ∧ p.timestamp = newest.timestamp ∧ id ∈ p.seen) ∨
          ∃ e ∈ unseen position (early ++ last), e.timestamp = newest.timestamp ∧ e.id = id) ↔
      (∀ e ∈ early, e.timestamp < newest.timestamp) ∧
        ∀ p, position = some p → p.seen ≠ [] → p.timestamp < newest.timestamp := by
  constructor
  · intro same
    constructor
    · intro e he
      refine lt_of_le_of_ne (le e (List.mem_append_left _ he)) fun time => ?_
      -- the event is skipped, for it was seen before or is fresh, so its id is on the last page
      obtain ⟨e', he', -, id_eq⟩ := (same e.id).mpr <| by
        by_cases known : ∃ p, position = some p ∧ p.hasSeen e.timestamp e.id = true
        · obtain ⟨p, hp, seen⟩ := known
          simp only [hasSeen, Bool.and_eq_true, decide_eq_true_eq, List.contains_iff_mem] at seen
          exact .inl ⟨p, hp, seen.1 ▸ time, seen.2⟩
        · refine .inr ⟨e, mem_unseen.mpr ⟨List.mem_append_left _ he, fun p hp => ?_⟩, time, rfl⟩
          simpa using fun seen => known ⟨p, hp, seen⟩
      have distinct := proper.distinct
      rw [List.map_append, List.nodup_append] at distinct
      exact distinct.2.2 _ (List.mem_map_of_mem he) _ (List.mem_map_of_mem he') id_eq.symm
    · intro p hp some_seen
      refine lt_of_le_of_ne (later p hp newest (List.mem_append_right _ mem)) fun time => ?_
      obtain ⟨id, hid⟩ := List.exists_mem_of_ne_nil _ some_seen
      obtain ⟨e, he, e_time, rfl⟩ := (same id).mpr (.inl ⟨p, hp, time, hid⟩)
      have known : p.hasSeen e.timestamp e.id = true := by
        simp [hasSeen, e_time, time, hid]
      rw [unknown e he p hp] at known
      cases known
  · rintro ⟨older, seen_older⟩ id
    constructor
    · rintro ⟨e, he, time, rfl⟩
      exact .inr ⟨e, mem_unseen.mpr ⟨List.mem_append_right _ he, unknown e he⟩, time, rfl⟩
    · rintro (⟨p, hp, time, hid⟩ | ⟨e, he, time, rfl⟩)
      · exact absurd time (seen_older p hp (List.ne_nil_of_mem hid)).ne
      · rcases List.mem_append.mp (mem_unseen.mp he).1 with early_mem | last_mem
        · exact absurd time (older e early_mem).ne
        · exact ⟨e, last_mem, time, rfl⟩

/-- After a last page with the newest event the place is the same just when all before it is
older. -/
theorem samePlace_iff_of_newest {early page : List LogEvent} {newest : LogEvent}
    (stands : Stands q position) (proper : Proper (early ++ (page ++ [newest])))
    (own : isOwn token = false) (order : InOrder (early ++ (page ++ [newest])))
    (later : NotBefore position (early ++ (page ++ [newest])))
    (unknown : Unknown position (page ++ [newest])) :
    SamePlace (queryAfter { q with token := some token } [⟨page ++ [newest], none⟩])
        (queryAfter q [⟨early ++ (page ++ [newest]), none⟩]) ↔
      (∀ e ∈ early, e.timestamp < newest.timestamp) ∧
        ∀ p, position = some p → p.seen ≠ [] → p.timestamp < newest.timestamp := by
  have le : ∀ e ∈ early ++ (page ++ [newest]), e.timestamp ≤ newest.timestamp := by
    rw [← List.append_assoc] at order ⊢
    exact order.le_last
  have mem : newest ∈ page ++ [newest] := List.mem_append_right _ (List.mem_singleton.mpr rfl)
  have fresh : newest ∈ unseen position (early ++ (page ++ [newest])) :=
    mem_unseen.mpr ⟨List.mem_append_right _ mem, unknown newest mem⟩
  obtain ⟨start, skips⟩ := place_after_page stands proper fresh le
  obtain ⟨start_last, skips_last⟩ := place_after_last (q := q) own
    (proper.sublist (List.sublist_append_right early _)) mem
    fun e he => le e (List.mem_append_right _ he)
  rw [SamePlace, start, start_last, and_iff_right rfl]
  simp only [skips, skips_last]
  exact skips_iff_older proper mem le later unknown

/-! ### Clean cuts -/

/-- The pages are cut so that nothing is forgotten between them. -/
inductive CleanCut (q : LogQuery) (first : List LogEvent) (later : List (String × List LogEvent)) :
    Prop
  /-- There is one page only. -/
  | single (one : later = [])
  /-- There are no events, and the query stands at its own start. -/
  | empty (none : uncut first later = []) (start : (resumption q).start = q.start)
      (skips : skipped q = [])
  /-- The last page has the newest event, what stood on earlier pages or was seen before is older,
  and the later pages hold nothing that was seen before. -/
  | clean (init : List (String × List LogEvent)) (token : String) (page : List LogEvent)
      (newest : LogEvent) (pages : later = init ++ [(token, page ++ [newest])])
      (older : ∀ e ∈ uncut first init, e.timestamp < newest.timestamp)
      (seen_older : ∀ p, (resumption q).position = some p → p.seen ≠ [] →
        p.timestamp < newest.timestamp)
      (unknown : Unknown (resumption q).position (later.flatMap (·.2)))

/-- **When pages are transparent.**  Take a query without a token or with one of this library's
own, and a list of events as the provider answers it, cut into pages anyhow.  Sent again and again
with the last token, the query asks for one page after the other; and all pages together give the
same entries as the whole list on one page and lead to the same place, with the same start and the
same ids to skip, just when the cut is clean. -/
theorem pages_transparent_iff (stands : Stands q position)
    (proper : Proper (uncut first later)) (order : InOrder (uncut first later))
    (since : ∀ start ∈ (requestOf q).start, ∀ e ∈ uncut first later, start ≤ e.timestamp)
    (own : ∀ x ∈ later, isOwn x.1 = false) :
    replay q.token ((cut first later).map fun answer => (q, .last, .ok answer)) =
      (followed q (cut first later)).map (fun x => (x.1, .ok x.2)) ∧
    (followed q (cut first later)).map (·.1.token) = none :: later.map (some ·.1) ∧
    ((entriesOf q (cut first later) = entriesOf q [⟨uncut first later, none⟩] ∧
        SamePlace (queryAfter q (cut first later)) (queryAfter q [⟨uncut first later, none⟩])) ↔
      CleanCut q first later) := by
  have resumed := resumption_eq stands
  have not_before := notBefore_of_since stands since
  refine ⟨replay_eq_followed q _, by rw [requests_of_cut own, resumed], ?_⟩
  rw [entriesOf_cut_eq_iff stands own]
  rcases List.eq_nil_or_concat' later with rfl | ⟨init, ⟨token, last⟩, rfl⟩
  · have one : cut first [] = [⟨uncut first [], none⟩] := by simp [cut, uncut]
    rw [one]
    exact ⟨fun _ => .single rfl, fun _ => ⟨(by rintro _ ⟨⟩), rfl, fun _ => Iff.rfl⟩⟩
  have own_last : isOwn token = false :=
    own (token, last) (List.mem_append_right _ (List.mem_singleton.mpr rfl))
  have split : uncut first (init ++ [(token, last)]) = uncut first init ++ last := by
    simp [uncut]
  have later_eq : (init ++ [(token, last)]).flatMap (·.2) = init.flatMap (·.2) ++ last := by simp
  rw [queryAfter_cut]
  rcases List.eq_nil_or_concat' last with rfl | ⟨page, newest, rfl⟩
  · rw [samePlace_iff_of_empty stands proper own_last]
    constructor
    · rintro ⟨-, none, start, skips⟩
      exact .empty none start skips
    · intro clean
      cases clean with
      | single one => simp at one
      | empty none start skips =>
        refine ⟨?_, none, start, skips⟩
        rw [(List.append_eq_nil_iff.mp none).2]
        rintro _ ⟨⟩
      | clean _ _ _ _ pages => simp at pages
  · rw [split] at proper order not_before
    rw [split]
    have last_unknown : ∀ {p}, Unknown p ((init ++ [(token, page ++ [newest])]).flatMap (·.2)) →
        Unknown p (page ++ [newest]) := fun unknown e he =>
      unknown e (later_eq ▸ List.mem_append_right _ he)
    constructor
    · rintro ⟨unknown, same⟩
      obtain ⟨older, seen_older⟩ := (samePlace_iff_of_newest stands proper own_last order
        not_before (last_unknown unknown)).mp same
      rw [← show (resumption q).position = position by rw [resumed]] at unknown seen_older
      exact .clean init token page newest rfl older seen_older unknown
    · intro clean
      cases clean with
      | single one => simp at one
      | empty none => simp [split] at none
      | clean _ _ _ _ pages older seen_older unknown =>
        simp only [List.append_singleton_inj, Prod.mk.injEq] at pages
        obtain ⟨rfl, -, rfl, rfl⟩ := pages
        rw [resumed] at unknown seen_older
        exact ⟨unknown, (samePlace_iff_of_newest stands proper own_last order
          not_before (last_unknown unknown)).mpr ⟨older, seen_older⟩⟩

/-- The query of a tail, before any page or after some event at 4000. -/
def asking (token : Option String) : LogQuery where
  group := "group"
  start := some 1000
  token := token

/-- On a query that resumes at 4000 after `e0`, a cut before a newer event is clean: the late
entry of the same millisecond is found on the first page, `e0` is not repeated, and the next query
skips the newest event only. -/
theorem cut_before_newer_transparent :
    let q := asking (some "after:4000:e0")
    let first : List LogEvent := [⟨"app", 4000, "a", "e0"⟩, ⟨"app", 4000, "b", "e1"⟩]
    let later : List (String × List LogEvent) := [("p1", []), ("p2", [⟨"app", 5000, "c", "e2"⟩])]
    CleanCut q first later ∧
      entriesOf q (cut first later) = [⟨"app", 4000, "b"⟩, ⟨"app", 5000, "c"⟩] ∧
      entriesOf q (cut first later) = entriesOf q [⟨uncut first later, none⟩] ∧
      SamePlace (queryAfter q (cut first later)) (queryAfter q [⟨uncut first later, none⟩]) := by
  intro q first later
  have carried : Carried (some ⟨4000, ["e0"]⟩) := by rintro _ ⟨⟩; exact ⟨by decide, by decide⟩
  have resumed : (resumption q).position = some ⟨4000, ["e0"]⟩ := by decide +kernel
  have clean : CleanCut q first later := by
    refine .clean [("p1", [])] "p2" [] ⟨"app", 5000, "c", "e2"⟩ rfl (by decide) ?_ ?_
    · rw [resumed]; rintro _ ⟨⟩ -; decide
    · rw [resumed]
      intro e he
      obtain rfl := List.mem_singleton.mp he
      rintro _ ⟨⟩
      decide
  have transparent : _ ↔ CleanCut q first later :=
    (pages_transparent_iff ⟨carried, by decide⟩ ⟨by decide, by decide, by decide⟩ (by decide)
      (by decide +kernel) (by decide)).2.2
  exact ⟨clean, by decide +kernel, transparent.mpr clean⟩

/-- **A page forgets the page before it.**  Of two events of one millisecond, each on a page of its
own, only the second is skipped by the next query; on one page both would be.  When the provider
answers that query with both, the first one is delivered a second time. -/
theorem second_page_forgets_first :
    ∃ (q : LogQuery) (first second : LogEvent),
      let pages := cut [first] [("p1", [second])]
      let page : List LogAnswer := [⟨[first, second], none⟩]
      first.timestamp = second.timestamp ∧
      (queryAfter q pages).token = some "after:5000:e2" ∧
      (queryAfter q page).token = some "after:5000:e1,e2" ∧
      ¬ SamePlace (queryAfter q pages) (queryAfter q page) ∧
      entriesOf (queryAfter q pages) page = [first.entry] ∧
      entriesOf (queryAfter q page) page = [] := by
  refine ⟨asking none, ⟨"app", 5000, "a", "e1"⟩, ⟨"app", 5000, "b", "e2"⟩, rfl, by decide +kernel,
    by decide +kernel, ?_, by decide +kernel, by decide +kernel⟩
  rintro ⟨-, same⟩
  exact absurd ((same "e1").mpr (by decide +kernel)) (by decide +kernel)

end DeployWatch.Provider
