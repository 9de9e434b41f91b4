/-
# What a tail makes of the answers of its store

A tail can be followed from what is said between it and its store (`Tail.Saying`): the queries
that it sends and the answers that it gets.  What it should make of the answers is a left fold over
them (`Tail.Digest`), which knows nothing of queues, timers and phases: it keeps the token that is
current, and adds an event for a page with a new token and entries, with their texts grouped by
stream, and for a fault.

At any time a tail is abreast of what has been said (`Tail.Abreast`): its query carries the token
of the fold, the events of its samples are those of the fold, and after a fault it takes no further
sample.  Every step keeps this (`Tail.Abreast.step`), so it holds in every state of a watch
(`Tail.abreast_of_chronicle`).
-/

import DeployWatch.Logs.Tail
import DeployWatch.Proofs.Logs.Arrangement
import DeployWatch.Proofs.Watch.Deeds

namespace DeployWatch.Tail

open DeployWatch.Watch DeployWatch.Watch.Net

variable {σ : Type} {store : LogStore σ} {epoch : Int} {settings : LogSettings}

/-! ### The fold -/

/-- What can be made of answers: the token that is current, and the events. -/
structure Digest where
  token : Option String := none
  events : List TailEvent := []
  deriving DecidableEq, Repr

namespace Digest

/-- The digest with one more answer. -/
def read (d : Digest) : Except CloudFault LogPage → Digest
  | .error fault => { d with events := d.events ++ [{ fault := some fault }] }
  | .ok page =>
    if page.token = d.token then d
    else if page.entries.isEmpty then { d with token := page.token }
    else
      let event : TailEvent := { lines := (LogEntry.arranged page.entries).map LogEntry.text }
      { token := page.token, events := d.events ++ [event] }

/-- The digest of several answers. -/
def of (answers : List (Except CloudFault LogPage)) : Digest := answers.foldl read {}

@[simp] theorem of_nil : of [] = {} := rfl

@[simp] theorem of_snoc (answers : List (Except CloudFault LogPage))
    (answer : Except CloudFault LogPage) : of (answers ++ [answer]) = (of answers).read answer := by
  simp [of]

end Digest

/-- A query that carries the token of a digest gets the next one from the answer. -/
theorem absorb_token {query : LogQuery} {d : Digest} (token : query.token = d.token)
    (answer : Except CloudFault LogPage) :
    (absorb query answer).1 = { query with token := (d.read answer).token } := by
  obtain ⟨group, streams, start, filter, _⟩ := query
  obtain rfl : _ = d.token := token
  cases answer with
  | error => rfl
  | ok page =>
    simp only [absorb, Digest.read]
    split
    · rfl
    · split <;> rfl

/-- A sample has just the events that the answer adds to the digest. -/
theorem absorb_events {query : LogQuery} {d : Digest} (token : query.token = d.token)
    (answer : Except CloudFault LogPage) :
    (d.read answer).events = d.events ++ (absorb query answer).2.events := by
  cases answer with
  | error => rfl
  | ok page =>
    simp only [absorb, Digest.read, token]
    split
    · simp [Sample.pending]
    · split <;> simp [Sample.pending, Sample.emit, eventOf_eq]

/-- A sample is terminal just if the answer is a fault. -/
theorem absorb_terminal (query : LogQuery) (answer : Except CloudFault LogPage) :
    (absorb query answer).2.terminal = true ↔ ∃ fault, answer = .error fault := by
  cases answer with
  | error fault => exact ⟨fun _ => ⟨fault, rfl⟩, fun _ => rfl⟩
  | ok page =>
    simp only [absorb]
    split
    · simp [Sample.pending]
    · split <;> simp [Sample.pending, Sample.emit]

/-- The query of a tail after an answer. -/
theorem finish_query (now : Nat) (t : Tail σ) :
    ((sampler store epoch).finish now t).1.query =
      (absorb t.query (store.answer t.query t.store).2).1 := rfl

/-- The sample that a tail makes of an answer. -/
theorem finish_sample (now : Nat) (t : Tail σ) :
    ((sampler store epoch).finish now t).2 =
      (absorb t.query (store.answer t.query t.store).2).2 := rfl

/-! ### What is said between a tail and its store -/

/-- What a tail and its store say to each other. -/
inductive Saying where
  /-- The tail sends a query. -/
  | asks (query : LogQuery)
  /-- The store answers the query in flight. -/
  | answers (answer : Except CloudFault LogPage)

/-- What was said in a step from one state of a watch to another. -/
def sayings (store : LogStore σ) (a b : Net (Poller (Tail σ) TailEvent) TailEvent) :
    List Saying :=
  (Poller.deeds a b).flatMap fun (_, deed) =>
    match deed with
    | .starts => [.asks b.task.sampler.query]
    | .returns _ => [.answers (store.answer a.task.sampler.query a.task.sampler.store).2]
    | .queues _ => []

/-- The queries in what was said. -/
def queriesOf (log : List Saying) : List LogQuery :=
  log.filterMap fun
    | .asks query => some query
    | .answers _ => none

/-- The answers in what was said. -/
def answersOf (log : List Saying) : List (Except CloudFault LogPage) :=
  log.filterMap fun
    | .asks _ => none
    | .answers answer => some answer

@[simp] theorem queriesOf_nil : queriesOf [] = [] := rfl

@[simp] theorem queriesOf_asks (log : List Saying) (query : LogQuery) :
    queriesOf (log ++ [.asks query]) = queriesOf log ++ [query] := by
  simp [queriesOf]

@[simp] theorem queriesOf_answers (log : List Saying) (answer : Except CloudFault LogPage) :
    queriesOf (log ++ [.answers answer]) = queriesOf log := by
  simp [queriesOf]

@[simp] theorem answersOf_nil : answersOf [] = [] := rfl

@[simp] theorem answersOf_asks (log : List Saying) (query : LogQuery) :
    answersOf (log ++ [.asks query]) = answersOf log := by
  simp [answersOf]

@[simp] theorem answersOf_answers (log : List Saying) (answer : Except CloudFault LogPage) :
    answersOf (log ++ [.answers answer]) = answersOf log ++ [answer] := by
  simp [answersOf]

/-- Nothing is said where nothing happens. -/
theorem sayings_self (n : Net (Poller (Tail σ) TailEvent) TailEvent) : sayings store n n = [] := by
  rw [sayings, Poller.deeds_self]
  rfl

/-- An element of a list with one more at its end. -/
theorem getElem?_snoc_eq_some {α : Type} {xs : List α} {x y : α} {i : Nat}
    (h : (xs ++ [x])[i]? = some y) : xs[i]? = some y ∨ i = xs.length ∧ y = x := by
  rcases Nat.lt_or_ge i xs.length with old | new
  · rw [List.getElem?_append_left old] at h
    exact .inl h
  · rw [List.getElem?_append_right new, List.getElem?_singleton] at h
    split at h
    · exact .inr ⟨by omega, (Option.some.inj h).symm⟩
    · cases h

/-! ### A tail is abreast of what has been said -/

/-- The query that a tail sends after these answers. -/
def asking (epoch : Int) (base : LogQuery) (answers : List (Except CloudFault LogPage)) :
    LogQuery :=
  { base with start := some epoch, token := (Digest.of answers).token }

/-- How a tail stands to what has been said since it was started with a query. -/
structure Abreast (epoch : Int) (base : LogQuery) (log : List Saying)
    (n : Net (Poller (Tail σ) TailEvent) TailEvent) : Prop where
  /-- A tail that has not run yet will do so at once, and with its query as it was. -/
  fresh : n.task.phase = .fresh → n.now = 0 ∧ n.task.sampler.query = base ∧ answersOf log = []
  /-- The query of a tail that runs carries the token of the answers. -/
  query : n.task.phase ≠ .fresh → n.task.sampler.query = asking epoch base (answersOf log)
  /-- Every query sent carried the token of the answers before it. -/
  asked : ∀ i q, (queriesOf log)[i]? = some q → q = asking epoch base ((answersOf log).take i)
  /-- Every sample started is a query. -/
  starts : (queriesOf log).length = n.task.startTimes.length
  /-- Every sample is what the tail makes of an answer. -/
  samples : n.task.samples.length = (answersOf log).length ∧
    ∀ i answer, (answersOf log)[i]? = some answer →
      n.task.samples[i]? = some (absorb (asking epoch base ((answersOf log).take i)) answer).2
  /-- The events of the samples are those of the fold. -/
  emitted : n.task.emitted = (Digest.of (answersOf log)).events
  /-- A fault is the last answer, and the tail takes no further sample. -/
  fault : ∀ i fault, (answersOf log)[i]? = some (.error fault) →
    i + 1 = (answersOf log).length ∧ n.task.phase.isLast = true

namespace Abreast

variable {base : LogQuery} {log : List Saying}
  {a b : Net (Poller (Tail σ) TailEvent) TailEvent}

/-- The query of a tail that runs carries the token of the fold. -/
theorem token (abreast : Abreast epoch base log a) (goes : a.task.phase ≠ .fresh) :
    a.task.sampler.query.token = (Digest.of (answersOf log)).token := by
  rw [abreast.query goes]
  rfl

/-- A tail that neither asks nor gets an answer stays abreast. -/
theorem still (abreast : Abreast epoch base log a) (tail_eq : b.task.sampler = a.task.sampler)
    (started : b.task.startTimes = a.task.startTimes) (returned : b.task.samples = a.task.samples)
    (fresh : b.task.phase = .fresh ↔ a.task.phase = .fresh)
    (early : a.task.phase = .fresh → b.now = a.now)
    (last : a.task.phase.isLast = true → b.task.phase.isLast = true) :
    Abreast epoch base log b where
  fresh phase := by
    rw [early (fresh.mp phase), tail_eq]
    exact abreast.fresh (fresh.mp phase)
  query phase := by
    rw [tail_eq]
    exact abreast.query fun fresh' => phase (fresh.mpr fresh')
  asked := abreast.asked
  starts := by rw [started, abreast.starts]
  samples := by rw [returned]; exact abreast.samples
  emitted := by rw [Poller.emitted, returned]; exact abreast.emitted
  fault i fault h := ⟨(abreast.fault i fault h).1, last (abreast.fault i fault h).2⟩

/-- A tail that is not in a sample has an answer to every query. -/
theorem answered (abreast : Abreast epoch base log a) {s : Tail σ}
    (tracks : Poller.Tracks (sampler store epoch) s a.task)
    (between : ∀ due, a.task.phase ≠ .sampling due) :
    (queriesOf log).length = (answersOf log).length := by
  obtain ⟨-, answers⟩ := tracks.of_between between
  rw [abreast.starts, Poller.length_startTimes, answers, List.length_map, List.length_reverse]
  exact abreast.samples.1

/-- A tail that is in a sample waits for the answer to its last query. -/
theorem unanswered (abreast : Abreast epoch base log a) {s : Tail σ}
    (tracks : Poller.Tracks (sampler store epoch) s a.task) {due : Nat}
    (phase : a.task.phase = .sampling due) :
    (queriesOf log).length = (answersOf log).length + 1 := by
  obtain ⟨_, _, -, -, answers⟩ := tracks.of_sampling phase
  rw [abreast.starts, Poller.length_startTimes, answers, List.length_cons, List.length_map,
    List.length_reverse, abreast.samples.1]

/-- The query that a tail sends. -/
theorem next_query (abreast : Abreast epoch base log a) (blank : base.start = none)
    (no_token : base.token = none) :
    dated epoch a.now a.task.sampler.query = asking epoch base (answersOf log) := by
  by_cases phase : a.task.phase = .fresh
  · obtain ⟨now, query, answers⟩ := abreast.fresh phase
    simp [dated, asking, now, query, answers, blank, no_token]
  · simp [abreast.query phase, dated, asking]

/-- A tail that sends its next query stays abreast. -/
theorem asks (abreast : Abreast epoch base log a) (blank : base.start = none)
    (no_token : base.token = none) {s : Tail σ}
    (tracks : Poller.Tracks (sampler store epoch) s a.task)
    (between : ∀ due, a.task.phase ≠ .sampling due) (alive : a.task.phase.isLast = false) :
    Abreast epoch base (log ++ [.asks (dated epoch a.now a.task.sampler.query)])
      (a.take { state := a.task.startSample (sampler store epoch) a.now }) where
  fresh phase := by simp [take] at phase
  query _ := by
    rw [answersOf_asks]
    exact abreast.next_query blank no_token
  asked i q h := by
    rw [queriesOf_asks] at h
    rw [answersOf_asks]
    rcases getElem?_snoc_eq_some h with old | ⟨rfl, rfl⟩
    · exact abreast.asked i q old
    · -- the new query comes after all answers so far
      rw [abreast.answered tracks between, List.take_length]
      exact abreast.next_query blank no_token
  starts := by
    have started : (a.task.startSample (sampler store epoch) a.now).startTimes =
        a.task.startTimes ++ [a.now] := Poller.startSample_startTimes a.now
    simp [take, started, abreast.starts]
  samples := by
    rw [answersOf_asks]
    simpa [take] using abreast.samples
  emitted := by
    rw [answersOf_asks]
    simpa [take] using abreast.emitted
  fault i fault h := by
    rw [answersOf_asks] at h
    rw [(abreast.fault i fault h).2] at alive
    cases alive

/-- A tail that gets its answer stays abreast, whatever it does with the sample. -/
theorem answers (abreast : Abreast epoch base log a) {s : Tail σ}
    (tracks : Poller.Tracks (sampler store epoch) s a.task) {due : Nat}
    (phase : a.task.phase = .sampling due) {p : Poller (Tail σ) TailEvent}
    (tail_eq : p.sampler = ((sampler store epoch).finish a.now a.task.sampler).1)
    (started : p.startTimes = a.task.startTimes)
    (returned : p.samples =
      a.task.samples ++ [((sampler store epoch).finish a.now a.task.sampler).2])
    (goes : p.phase ≠ .fresh)
    (last : ((sampler store epoch).finish a.now a.task.sampler).2.terminal = true →
      p.phase.isLast = true) :
    Abreast epoch base
      (log ++ [.answers (store.answer a.task.sampler.query a.task.sampler.store).2])
      (a.take { state := p }) where
  fresh fresh := absurd fresh goes
  query _ := by
    change p.sampler.query = _
    rw [tail_eq, finish_query, absorb_token (abreast.token (by simp [phase])), answersOf_answers,
      asking, Digest.of_snoc, abreast.query (by simp [phase])]
    rfl
  asked i q h := by
    rw [queriesOf_answers] at h
    have within : i ≤ (answersOf log).length := by
      have sent := (List.getElem?_eq_some_iff.mp h).1
      rw [abreast.unanswered tracks phase] at sent
      omega
    rw [answersOf_answers, List.take_append_of_le_length within]
    exact abreast.asked i q h
  starts := by
    rw [queriesOf_answers, abreast.starts]
    exact congrArg List.length started.symm
  samples := by
    change p.samples.length = _ ∧ ∀ i answer, _ → p.samples[i]? = _
    obtain ⟨length_eq, samples⟩ := abreast.samples
    refine ⟨by simp [returned, length_eq], ?_⟩
    intro i answer h
    rw [answersOf_answers] at h ⊢
    rw [returned]
    rcases getElem?_snoc_eq_some h with old | ⟨rfl, rfl⟩
    · have before := (List.getElem?_eq_some_iff.mp old).1
      rw [List.getElem?_append_left (by omega), List.take_append_of_le_length (by omega)]
      exact samples i answer old
    · rw [← length_eq, List.getElem?_concat_length, length_eq, List.take_left, finish_sample,
        abreast.query (by simp [phase])]
  emitted := by
    change p.samples.flatMap Sample.events = _
    rw [returned, List.flatMap_append, answersOf_answers, Digest.of_snoc,
      absorb_events (abreast.token (by simp [phase])), ← abreast.emitted]
    simp [Poller.emitted, finish_sample]
  fault i fault h := by
    rw [answersOf_answers] at h ⊢
    rcases getElem?_snoc_eq_some h with old | ⟨rfl, eq⟩
    · -- a tail that got a fault would not be in a sample
      have stopped := (abreast.fault i fault old).2
      simp [phase] at stopped
    · refine ⟨by simp, last ?_⟩
      rw [finish_sample]
      exact (absorb_terminal _ _).mpr ⟨fault, eq.symm⟩

/-- Whatever a tail does, it stays abreast. -/
theorem turn (abreast : Abreast epoch base log a) (blank : base.start = none)
    (no_token : base.token = none) {s : Tail σ}
    (tracks : Poller.Tracks (sampler store epoch) s a.task)
    {move : Move (Poller (Tail σ) TailEvent) TailEvent}
    {pause : Nat} (turn : Poller.Turn (sampler store epoch) { interval := pause } a.view a.task
      move) :
    Abreast epoch base (log ++ sayings store a (a.take move)) (a.take move) := by
  cases turn with
  | rest _ delay => cases delay
  | look ready =>
    rw [sayings, Poller.deeds_look]
    obtain ⟨between, alive⟩ :
        (∀ due, a.task.phase ≠ .sampling due) ∧ a.task.phase.isLast = false := by
      rcases ready with ⟨phase, -⟩ | ⟨_, phase, -⟩ <;> simp [phase]
    exact abreast.asks blank no_token tracks between alive
  | quit due phase | giveUp _ _ _ phase =>
    rw [sayings, Poller.deeds_of_cycles_eq rfl rfl, List.flatMap_nil, List.append_nil]
    exact abreast.still rfl rfl rfl (by simp [take, phase]) (by simp [phase]) fun _ => rfl
  | discard due phase =>
    rw [sayings, Poller.deeds_discard tracks phase]
    exact abreast.answers tracks phase (Poller.answered_sampler _) (Poller.answered_startTimes _)
      (tracks.answered_samples phase _) (by simp) fun _ => rfl
  | keep due phase =>
    rw [sayings, Poller.deeds_keep tracks phase]
    refine abreast.answers tracks phase (by simp [Poller.proceeding]; rfl) (by simp) ?_ ?_ ?_
    · rw [Poller.proceeding, Poller.forward_samples]
      exact tracks.answered_samples phase _
    · exact Poller.forward_phase_ne_fresh _ _ _
    · intro terminal
      rw [Poller.proceeding, Poller.forward_isLast]
      exact terminal
  | send e rest terminal phase =>
    have goes : (a.task.forward { interval := pause } a.view.now rest terminal).phase ≠ .fresh :=
      Poller.forward_phase_ne_fresh _ _ _
    rw [sayings, Poller.deeds_send, List.flatMap_singleton, List.append_nil]
    exact abreast.still (by simp [take]) (by simp [take]) (by simp [take])
      (by simp [take, phase, goes]) (by simp [phase]) (by simp [take, phase])

theorem step (abreast : Abreast epoch base log a) (blank : base.start = none)
    (no_token : base.token = none) {s : Tail σ}
    (tracks : Poller.Tracks (sampler store epoch) s a.task)
    (step : Step (task store epoch settings) a b) :
    Abreast epoch base (log ++ sayings store a b) b := by
  rcases Poller.turn_or_still step with ⟨move, turn, rfl⟩ | ⟨same, still⟩
  · exact abreast.turn blank no_token tracks turn
  · rw [sayings, still, List.flatMap_nil, List.append_nil]
    refine abreast.still ?_ ?_ ?_ ?_ ?_ ?_
    · rw [same]
    · rw [same]
    · rw [same]
    · rw [same]
    · intro phase
      exact step.now_eq (Poller.moves_ne_nil_of_fresh phase)
    · rw [same]
      exact id

end Abreast

section Runs

variable {init : σ} {group : String} {streams : List String} {capacity : Nat} {cancelled : Bool}
  {log : List Saying} {n : Net (Poller (Tail σ) TailEvent) TailEvent}

/-- A tail that has just been started is abreast, for nothing has been said. -/
theorem abreast_start : Abreast epoch { group, streams, filter := settings.filter } []
    (start init settings group streams capacity cancelled) where
  fresh _ := ⟨rfl, rfl, rfl⟩
  query goes := absurd rfl goes
  asked := by simp
  starts := rfl
  samples := ⟨rfl, by simp⟩
  emitted := rfl
  fault := by simp

/-- In every state of a watch the tail is abreast of what has been said. -/
theorem abreast_of_chronicle
    (chronicle : Chronicle (task store epoch settings) (sayings store)
      (start init settings group streams capacity cancelled) log n) :
    Abreast epoch { group, streams, filter := settings.filter } log n := by
  induction chronicle with
  | nil => exact abreast_start
  | snoc before step ih =>
    exact ih.step rfl rfl (Poller.tracks_of_steps before.steps (Poller.Tracks.fresh _ _)) step

end Runs

end DeployWatch.Tail
