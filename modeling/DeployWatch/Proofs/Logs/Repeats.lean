/-
# Repeated pages

A tail shows the entries of a page unless the page repeats the token of the page before it.  The
first page has none before it, and there a page without a token counts as a repeated one.

The main statement is `Tail.delivers_page_iff`: in a run that starves nobody the entries of a page
are delivered, in an event of their own and after those of the pages before it, just if the page
does not repeat the token in this sense.  `Tail.first_page_lost` is a log of which only the first
page has entries, and they are never seen.
-/

import DeployWatch.Proofs.Logs.Following

namespace DeployWatch.Tail

open DeployWatch.Watch DeployWatch.Watch.Net

variable {σ : Type} {store : LogStore σ} {epoch : Int} {settings : LogSettings}

/-! ### The token that a page is compared with -/

/-- The token of the page before the answer with this number, none if there is no such page. -/
def tokenBefore (answers : List (Except CloudFault LogPage)) : Nat → Option String
  | 0 => none
  | i + 1 =>
    match answers[i]? with
    | some (.ok page) => page.token
    | _ => none

/-- After a page its token is current, whether it is a new one or not. -/
@[simp] theorem Digest.read_ok_token (d : Digest) (page : LogPage) :
    (d.read (.ok page)).token = page.token := by
  simp only [read]
  split
  · next same => exact same.symm
  · split <;> rfl

/-- The current token is that of the page before. -/
theorem digest_token {answers : List (Except CloudFault LogPage)} {i : Nat}
    (pages : ∀ k fault, answers[k]? = some (.error fault) → i ≤ k) (within : i ≤ answers.length) :
    (Digest.of (answers.take i)).token = tokenBefore answers i := by
  cases i with
  | zero => rfl
  | succ i =>
    have here : i < answers.length := within
    rw [List.take_succ_eq_append_getElem here, Digest.of_snoc, tokenBefore,
      List.getElem?_eq_getElem here]
    cases answer : answers[i] with
    | ok page => exact Digest.read_ok_token _ page
    | error fault =>
      have late := pages i fault (by rw [List.getElem?_eq_getElem here, answer])
      omega

/-- The sample of a page with entries. -/
theorem absorb_page (query : LogQuery) {page : LogPage} (entries : page.entries ≠ []) :
    (absorb query (.ok page)).2 =
      if page.token = query.token then .pending else .emit [eventOf page.entries] := by
  simp only [absorb, List.isEmpty_iff, entries, if_false]
  split <;> rfl

section Runs

variable {init : σ} {group : String} {streams : List String} {capacity : Nat} {cancelled : Bool}
  {log : List Saying} {n : Net (Poller (Tail σ) TailEvent) TailEvent}

/-- What a tail samples for a page with entries. -/
theorem sample_of_page
    (chronicle : Chronicle (task store epoch settings) (sayings store)
      (start init settings group streams capacity cancelled) log n)
    {i : Nat} {page : LogPage} (got : (answersOf log)[i]? = some (.ok page))
    (entries : page.entries ≠ []) :
    n.task.samples[i]? = some (if page.token = tokenBefore (answersOf log) i then .pending
      else .emit [eventOf page.entries]) := by
  have abreast := abreast_of_chronicle chronicle
  have within : i < (answersOf log).length := (List.getElem?_eq_some_iff.mp got).1
  -- a fault can only be the last answer
  have pages : ∀ k fault, (answersOf log)[k]? = some (.error fault) → i ≤ k := by
    intro k fault h
    have last := (abreast.fault k fault h).1
    omega
  rw [abreast.samples.2 i _ got, absorb_page _ entries, asking, digest_token pages within.le]

variable {run : Run (task store epoch settings)
  (start init settings group streams capacity false)}

/-- The event of a sample is received after those of the samples before it. -/
theorem exists_sample_received (fair : run.Draining) (steady : run.Steady) {l i : Nat}
    {events : List TailEvent} (sample : (run.state l).task.samples[i]? = some (.emit events)) :
    ∃ j, ((run.state l).task.samples.take i).flatMap Sample.events ++ events <+:
      (run.state j).received := by
  obtain ⟨within, eq⟩ := List.getElem?_eq_some_iff.mp sample
  have upTo : ((run.state l).task.samples.take i).flatMap Sample.events ++ events <+:
      (run.state l).task.emitted := by
    have split : (run.state l).task.samples.take (i + 1) =
        (run.state l).task.samples.take i ++ [.emit events] := by
      rw [List.take_succ_eq_append_getElem within, eq]
    have part := (List.take_prefix (i + 1) (run.state l).task.samples).flatMap Sample.events
    rw [split] at part
    simpa [Sample.emit, Poller.emitted] using part
  obtain ⟨j, -, received⟩ := exists_digest_received fair steady l
  rw [← (abreast_of_chronicle (run.chronicle sayings_self l)).emitted] at received
  exact ⟨j, upTo.trans received⟩

/-- **The entries of a page are delivered just if it does not repeat the token of the page before
it**, where the first page repeats a token if it has none.  They come in one event with their
texts, after the events of the pages before; of a page that repeats the token nothing comes. -/
theorem delivers_page_iff (fair : run.Draining) (steady : run.Steady) {l i : Nat} {page : LogPage}
    (got : (answersOf (run.log (sayings store) l))[i]? = some (.ok page))
    (entries : page.entries ≠ []) :
    (((run.state l).task.samples[i]? =
        some (.emit [{ lines := (LogEntry.arranged page.entries).map LogEntry.text }]) ∧
      ∃ j, ((run.state l).task.samples.take i).flatMap Sample.events ++
          [{ lines := (LogEntry.arranged page.entries).map LogEntry.text }] <+:
        (run.state j).received) ↔
      page.token ≠ tokenBefore (answersOf (run.log (sayings store) l)) i) ∧
    (page.token = tokenBefore (answersOf (run.log (sayings store) l)) i →
      (run.state l).task.samples[i]? = some .pending) := by
  have sample := sample_of_page (run.chronicle sayings_self l) got entries
  rw [eventOf_eq] at sample
  by_cases repeated : page.token = tokenBefore (answersOf (run.log (sayings store) l)) i
  · rw [if_pos repeated] at sample
    refine ⟨⟨?_, fun new => absurd repeated new⟩, fun _ => sample⟩
    rintro ⟨emitted, -⟩
    rw [sample] at emitted
    cases emitted
  · rw [if_neg repeated] at sample
    refine ⟨⟨fun _ => repeated, fun _ => ⟨sample, ?_⟩⟩, fun same => absurd same repeated⟩
    exact exists_sample_received fair steady sample

end Runs

/-- In a log where a token is repeated, goes and comes back, the entries of the first and the fourth
page are delivered, and those of the second are not. -/
theorem delivers_page_iff_token_new :
    (comesBack.state 20).task.samples[1]? = some .pending ∧
    (∃ j, [upEvent] <+: (comesBack.state j).received) ∧
    ∃ j, ((comesBack.state 20).task.samples.take 3).flatMap Sample.events ++ [upEvent] <+:
      (comesBack.state j).received := by
  have fair : comesBack.Draining := Run.eager_draining rfl Poller.patient
  have steady : comesBack.Steady := Run.eager_steady rfl
  have answers : answersOf (comesBack.log (sayings LogScript.store) 20) = tokenComesBack.pages := by
    rfl
  refine ⟨?_, ?_, ?_⟩
  · have second : (answersOf (comesBack.log (sayings LogScript.store) 20))[1]? =
        some (.ok ⟨[⟨"web", 0, "up"⟩], some "a"⟩) := by rw [answers]; rfl
    apply (delivers_page_iff fair steady second (by simp)).2
    rw [answers]
    rfl
  · have first : (answersOf (comesBack.log (sayings LogScript.store) 20))[0]? =
        some (.ok ⟨[⟨"web", 0, "up"⟩], some "a"⟩) := by rw [answers]; rfl
    have delivered := (delivers_page_iff fair steady first (by simp)).1.mpr (by simp [tokenBefore])
    simpa [eq_upEvent] using delivered.2
  · have fourth : (answersOf (comesBack.log (sayings LogScript.store) 20))[3]? =
        some (.ok ⟨[⟨"web", 0, "up"⟩], some "a"⟩) := by rw [answers]; rfl
    have new : some "a" ≠ tokenBefore (answersOf (comesBack.log (sayings LogScript.store) 20)) 3 := by
      rw [answers]
      simp [tokenBefore, tokenComesBack]
    have delivered := (delivers_page_iff fair steady fourth (by simp)).1.mpr new
    simpa only [eq_upEvent] using delivered.2

/-! ### A first page without a token -/

/-- A page without a token, and then a fault. -/
def bareFirst : LogScript where
  pages := [.ok ⟨[⟨"web", 0, "up"⟩], none⟩, .error (.unavailable "away")]

/-- A tail of these pages with an eager consumer. -/
def bare : Run (task LogScript.store 1000 {}) (start bareFirst {} "group" [] 1 false) :=
  .eager _ rfl

/-- From the fault on the queue reads closed, and only the fault has been received. -/
theorem bare_received (j : Nat) :
    (bare.state j).received <+: [{ fault := some (.unavailable "away") }] := by
  have closed : (bare.state 12).isClosed (task LogScript.store 1000 {}) = true := by decide +kernel
  have all : (bare.state 12).received = [{ fault := some (.unavailable "away") }] := by
    decide +kernel
  rcases Nat.le_total j 12 with early | late
  · rw [← all]
    exact bare.received_prefix early
  · rw [(Run.frozen_of_isClosed (Poller.responsive _ _) closed j late).2.2, all]

/-- The entries of the first page, which has no token and no page before it, are never received. -/
theorem first_page_lost :
    ¬ ∀ (run : Run (task LogScript.store 1000 {}) (start bareFirst {} "group" [] 1 false)),
      run.Draining → run.Steady → ∀ l i page,
        (answersOf (run.log (sayings LogScript.store) l))[i]? = some (.ok page) →
        page.entries ≠ [] →
        (∀ k before, i = k + 1 →
          (answersOf (run.log (sayings LogScript.store) l))[k]? = some (.ok before) →
            page.token ≠ before.token) →
        ∃ j, { lines := (LogEntry.arranged page.entries).map LogEntry.text } ∈
          (run.state j).received := by
  intro claimed
  have answers : answersOf (bare.log (sayings LogScript.store) 12) = bareFirst.pages := by rfl
  obtain ⟨j, received⟩ := claimed bare (Run.eager_draining rfl Poller.patient)
    (Run.eager_steady rfl) 12 0 ⟨[⟨"web", 0, "up"⟩], none⟩ (by rw [answers]; rfl) (by simp)
    (by simp)
  have fault := List.mem_singleton.mp ((bare_received j).subset received)
  cases congrArg TailEvent.fault fault

end DeployWatch.Tail
