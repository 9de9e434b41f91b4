/-
# A script that has run out is silent

A scripted store remembers the token of the last page that it gave, and a tail the token that it
will send.  They keep them by different rules: the store at every page, the tail only where the
token is a new one.  Still the two are the same at any time, as long as the tail is the only one
that asks (`Tail.InStep`).  It makes no difference to this when the script gets more answers.

So a query that finds no answer in the script gets back the token that it carries, and nothing comes
of it.  What a step can do with the script is said once (`Tail.Dealing`): it sends a query, it has
one answered, or it leaves the script alone.

The main statement is `Tail.silent_without_script`.
-/

import DeployWatch.Logs.Tail
import DeployWatch.Proofs.Watch.Delivery

namespace DeployWatch

open DeployWatch.Watch DeployWatch.Watch.Net

/-! ### What a script answers -/

namespace LogScript

/-- The script with more answers at its end. -/
def extend (s : LogScript) (more : List (Except CloudFault LogPage)) : LogScript :=
  { s with pages := s.pages ++ more }

/-- Whatever the script answers, it goes on with the token that a tail goes on with which has asked
with the token remembered. -/
theorem next_lastToken {s : LogScript} {query : LogQuery} (same : s.lastToken = query.token) :
    (s.next query).1.lastToken = (Tail.absorb query (s.next query).2).1.token := by
  obtain ⟨pages, lastToken, latencies, times, queries⟩ := s
  cases pages with
  | nil =>
    show lastToken = (Tail.absorb query (.ok ⟨[], lastToken⟩)).1.token
    rw [Tail.absorb, if_pos same]
    exact same
  | cons answer rest =>
    cases answer with
    | error => exact same
    | ok page =>
      show page.token = (Tail.absorb query (.ok page)).1.token
      rw [Tail.absorb]
      split
      · next repeated => exact repeated
      · split <;> rfl

/-- Every query is noted down. -/
theorem next_queries (s : LogScript) (query : LogQuery) :
    (s.next query).1.queries = s.queries ++ [query] := by
  obtain ⟨pages, lastToken, latencies, times, queries⟩ := s
  cases pages with
  | nil => rfl
  | cons answer rest => cases answer <;> rfl

/-- The time of a query is noted down when it is sent, not when it is answered. -/
theorem next_times (s : LogScript) (query : LogQuery) : (s.next query).1.times = s.times := by
  obtain ⟨pages, lastToken, latencies, times, queries⟩ := s
  cases pages with
  | nil => rfl
  | cons answer rest => cases answer <;> rfl

/-- Where the script has run out it stays so, and a tail that has asked with the token remembered
makes nothing of the answer. -/
theorem absorb_next {s : LogScript} {query : LogQuery} (out : s.pages = [])
    (same : s.lastToken = query.token) :
    (s.next query).1.pages = [] ∧ Tail.absorb query (s.next query).2 = (query, .pending) := by
  simp only [next, out]
  exact ⟨trivial, if_pos same⟩

end LogScript

namespace Tail

variable {epoch : Int} {settings : LogSettings}

/-! ### A tail and a script that somebody may extend -/

/-- A watch that tails a script. -/
abbrev ScriptWatch := Net (Poller (Tail LogScript) TailEvent) TailEvent

/-- The script that the tail asks. -/
def ScriptWatch.script (n : ScriptWatch) : LogScript := n.task.sampler.store

/-- The query of the tail, with the token that it will send. -/
def ScriptWatch.query (n : ScriptWatch) : LogQuery := n.task.sampler.query

/-- The watch with more answers in its script. -/
def ScriptWatch.extend (n : ScriptWatch) (more : List (Except CloudFault LogPage)) : ScriptWatch :=
  { n with task := { n.task with sampler := ⟨n.script.extend more, n.query⟩ } }

/-- Everything that can happen to a watch whose script may be extended at any time. -/
inductive Played (epoch : Int) (settings : LogSettings) (a : ScriptWatch) : ScriptWatch → Prop
  | refl : Played epoch settings a a
  | step {b c : ScriptWatch} (before : Played epoch settings a b)
      (step : Step (task LogScript.store epoch settings) b c) : Played epoch settings a c
  | extend {b : ScriptWatch} (before : Played epoch settings a b)
      (more : List (Except CloudFault LogPage)) : Played epoch settings a (b.extend more)

theorem Played.steps {a b c : ScriptWatch} (before : Played epoch settings a b)
    (run : Steps (task LogScript.store epoch settings) b c) : Played epoch settings a c := by
  induction run with
  | refl => exact before
  | tail _ last ih => exact ih.step last

/-! ### The token is the same on both sides -/

/-- The tail is in step with its script. -/
structure InStep (p : Poller (Tail LogScript) TailEvent) : Prop where
  /-- The script remembers the token that the tail will send. -/
  token : p.sampler.store.lastToken = p.sampler.query.token
  /-- A query in flight has its place in the record. -/
  flight : ∀ due, p.phase = .sampling due → ∃ before, p.answers = none :: before

namespace InStep

variable {p : Poller (Tail LogScript) TailEvent} {n m : ScriptWatch}

/-- A tail that has got its answer is in step. -/
theorem answered_token (h : InStep p) (now : Nat) :
    (p.answered (sampler LogScript.store epoch) now).sampler.store.lastToken =
      (p.answered (sampler LogScript.store epoch) now).sampler.query.token := by
  rw [Poller.answered_sampler]
  exact LogScript.next_lastToken h.token

/-- The answer to a query in flight becomes the last sample. -/
theorem answered_samples (h : InStep p) {due : Nat} (phase : p.phase = .sampling due) (now : Nat) :
    (p.answered (sampler LogScript.store epoch) now).samples = p.samples ++
      [(absorb p.sampler.query (p.sampler.store.next p.sampler.query).2).2] := by
  obtain ⟨before, answers⟩ := h.flight due phase
  rw [Poller.samples_eq, Poller.samples_eq, Poller.Tracks.answered_answers now answers, answers]
  simp
  rfl

/-- Whatever a tail does, it stays in step. -/
theorem turn (h : InStep p) {schedule : Schedule} {v : View}
    {move : Move (Poller (Tail LogScript) TailEvent) TailEvent}
    (turn : Poller.Turn (sampler LogScript.store epoch) schedule v p move) :
    InStep move.state := by
  cases turn with
  | rest => exact ⟨h.token, by simp⟩
  | look => exact ⟨h.token, fun _ _ => ⟨p.answers, Poller.startSample_answers v.now⟩⟩
  | quit | giveUp => exact ⟨h.token, by simp⟩
  | discard => exact ⟨h.answered_token v.now, by simp⟩
  | keep =>
    refine ⟨?_, fun due phase => absurd phase (Poller.forward_phase_ne_sampling _ _ _ due)⟩
    rw [Poller.proceeding, Poller.forward_sampler]
    exact h.answered_token v.now
  | send e rest terminal =>
    refine ⟨?_, fun due phase => absurd phase (Poller.forward_phase_ne_sampling _ _ _ due)⟩
    rw [Poller.forward_sampler]
    exact h.token

theorem step (h : InStep n.task) (step : Step (task LogScript.store epoch settings) n m) :
    InStep m.task := by
  rcases step.task_eq_or_take with same | ⟨move, able, rfl⟩
  · rw [same]
    exact h
  · exact h.turn (Poller.mem_moves_iff.mp able)

end InStep

/-- A tail of a fresh script is in step at any time, whoever extends the script. -/
theorem inStep_of_played {pages : List (Except CloudFault LogPage)} {latencies : List Nat}
    {group : String} {streams : List String} {capacity : Nat} {cancelled : Bool} {n : ScriptWatch}
    (played : Played epoch settings
      (start { pages, latencies } settings group streams capacity cancelled) n) :
    InStep n.task := by
  induction played with
  | refl => exact ⟨rfl, fun due phase => by cases phase⟩
  | step _ step ih => exact ih.step step
  | extend _ more ih => exact ⟨ih.token, ih.flight⟩

/-! ### What a step does with the script -/

/-- All that a step can do with the script, and what comes of it. -/
inductive Dealing (epoch : Int) (n m : ScriptWatch) : Prop
  /-- The script is left alone, and events may only get lost. -/
  | apart (tail : m.task.sampler = n.task.sampler) (samples : m.task.samples = n.task.samples)
      (account : m.gone = false → Poller.accounted m <+: Poller.accounted n)
  /-- A query is sent. -/
  | sent (tail : m.task.sampler = ((sampler LogScript.store epoch).start n.now n.task.sampler).1)
      (samples : m.task.samples = n.task.samples)
      (account : Poller.accounted m = Poller.accounted n)
  /-- A query is answered, and what comes of it is taken over unless the watch is cancelled. -/
  | answered
      (tail : m.task.sampler = ⟨(n.script.next n.query).1,
        (absorb n.query (n.script.next n.query).2).1⟩)
      (samples : m.task.samples =
        n.task.samples ++ [(absorb n.query (n.script.next n.query).2).2])
      (account : Poller.accounted m = Poller.accounted n ++
        if n.cancelled then [] else (absorb n.query (n.script.next n.query).2).2.events)

namespace InStep

variable {n m : ScriptWatch}

theorem dealing_of_turn (h : InStep n.task) {schedule : Schedule}
    {move : Move (Poller (Tail LogScript) TailEvent) TailEvent}
    (turn : Poller.Turn (sampler LogScript.store epoch) schedule n.view n.task move) :
    Dealing epoch n (n.take move) := by
  have account := Poller.accounted_take n move
  cases turn with
  | rest phase delay =>
    refine .apart rfl rfl fun _ => ?_
    rw [account, Poller.accounted]
    simp [phase]
  | look ready =>
    refine .sent rfl (Poller.startSample_samples _) ?_
    rcases ready with ⟨phase, -⟩ | ⟨_, phase, -⟩ <;>
      (rw [account, Poller.accounted]; simp [phase])
  | quit due phase off =>
    refine .apart rfl rfl fun _ => ?_
    rw [account, Poller.accounted]
    simp [phase]
  | discard due phase expired off =>
    refine .answered (Poller.answered_sampler _) (h.answered_samples phase _) ?_
    have off : n.cancelled = true := off
    rw [account, Poller.accounted, phase, off]
    simp
  | keep due phase expired on =>
    have on : n.cancelled = false := on
    refine .answered ?_ ?_ ?_
    · exact (Poller.forward_sampler _ _ _).trans (Poller.answered_sampler _)
    · exact (Poller.forward_samples _ _ _).trans (h.answered_samples phase _)
    · rw [account, Poller.accounted, Poller.proceeding, Poller.forward_held, phase, on]
      simp
      rfl
  | send e rest terminal phase here room =>
    refine .apart (Poller.forward_sampler _ _ _) (Poller.forward_samples _ _ _) fun _ => ?_
    rw [account, Poller.accounted]
    simp [phase]
  | giveUp e rest terminal phase off =>
    refine .apart rfl rfl fun _ => ?_
    rw [account, Poller.accounted]
    simp [phase]

theorem dealing_of_step (h : InStep n.task)
    (step : Step (task LogScript.store epoch settings) n m) : Dealing epoch n m := by
  cases step with
  | task move able => exact h.dealing_of_turn (Poller.mem_moves_iff.mp able)
  | receive _ e _ received =>
    obtain ⟨rest, queue, rfl⟩ := receive?_eq_some received
    refine .apart rfl rfl fun _ => ?_
    simp [Poller.accounted, Poller.sent, queue]
  | drop => exact .apart rfl rfl fun here => by cases here
  | cancel | elapse => exact .apart rfl rfl fun _ => List.prefix_rfl

end InStep

/-! ### Silence -/

namespace Dealing

variable {n m : ScriptWatch}

/-- A query that is sent carries the token of the tail. -/
theorem token_of_sent (dealing : Dealing epoch n m) (sent : m.script.times ≠ n.script.times) :
    m.query.token = n.query.token := by
  cases dealing with
  | apart tail => exact absurd (congrArg (·.store.times) tail) sent
  | sent tail => exact congrArg (·.query.token) tail
  | answered tail =>
    have same : m.script.times = (n.script.next n.query).1.times := congrArg (·.store.times) tail
    exact absurd (same.trans (LogScript.next_times _ _)) sent

/-- What is known of a step in which a query is answered. -/
theorem of_answered (dealing : Dealing epoch n m)
    (answered : m.script.queries ≠ n.script.queries) :
    m.task.sampler = ⟨(n.script.next n.query).1, (absorb n.query (n.script.next n.query).2).1⟩ ∧
      m.task.samples = n.task.samples ++ [(absorb n.query (n.script.next n.query).2).2] ∧
      Poller.accounted m = Poller.accounted n ++
        if n.cancelled then [] else (absorb n.query (n.script.next n.query).2).2.events := by
  cases dealing with
  | apart tail => exact absurd (congrArg (·.store.queries) tail) answered
  | sent tail => exact absurd (congrArg (·.store.queries) tail) answered
  | answered tail samples account => exact ⟨tail, samples, account⟩

/-- The query that is answered is the one that was sent. -/
theorem queries_of_answered (dealing : Dealing epoch n m)
    (answered : m.script.queries ≠ n.script.queries) :
    m.script.queries = n.script.queries ++ [n.query] := by
  obtain ⟨tail, -⟩ := dealing.of_answered answered
  have same : m.script.queries = (n.script.next n.query).1.queries :=
    congrArg (·.store.queries) tail
  exact same.trans (LogScript.next_queries _ _)

/-- A query that finds no answer in the script changes nothing but the records. -/
theorem of_unanswered (h : InStep n.task) (out : n.script.pages = [])
    (dealing : Dealing epoch n m) (answered : m.script.queries ≠ n.script.queries) :
    m.script.pages = [] ∧ m.query = n.query ∧ m.task.samples = n.task.samples ++ [.pending] ∧
      Poller.accounted m = Poller.accounted n := by
  obtain ⟨still, nothing⟩ := LogScript.absorb_next out h.token
  have nothing : absorb n.query (n.script.next n.query).2 = (n.query, .pending) := nothing
  obtain ⟨tail, samples, account⟩ := dealing.of_answered answered
  rw [nothing] at tail samples account
  refine ⟨?_, congrArg (·.query) tail, samples, ?_⟩
  · exact (congrArg (·.store.pages) tail).trans still
  · simpa [Sample.pending] using account

/-- A step that finds no answer in the script brings nothing. -/
theorem of_out (h : InStep n.task) (out : n.script.pages = []) (dealing : Dealing epoch n m) :
    m.script.pages = [] ∧
      (m.task.samples = n.task.samples ∨ m.task.samples = n.task.samples ++ [.pending]) ∧
      (m.gone = false → Poller.accounted m <+: Poller.accounted n) := by
  cases dealing with
  | apart tail samples account =>
    exact ⟨(congrArg (·.store.pages) tail).trans out, .inl samples, account⟩
  | sent tail samples account =>
    refine ⟨(congrArg (·.store.pages) tail).trans out, .inl samples, fun _ => ?_⟩
    rw [account]
  | answered tail samples account =>
    have longer : m.script.queries = n.script.queries ++ [n.query] :=
      (congrArg (·.store.queries) tail).trans (LogScript.next_queries _ _)
    have dealing : Dealing epoch n m := .answered tail samples account
    obtain ⟨still, -, samples, account⟩ := dealing.of_unanswered h out (by simp [longer])
    refine ⟨still, .inr samples, fun _ => ?_⟩
    rw [account]

end Dealing

/-- What comes of a tail since `n` whose script had run out: queries that bring nothing. -/
structure Unheard (n m : ScriptWatch) : Prop where
  out : m.script.pages = []
  pending : ∃ k, m.task.samples = n.task.samples ++ List.replicate k .pending
  /-- What the consumer has got was there before. -/
  received : m.received <+: Poller.accounted n
  account : m.gone = false → Poller.accounted m <+: Poller.accounted n

namespace Unheard

variable {n m m' : ScriptWatch}

theorem refl (out : n.script.pages = []) : Unheard n n where
  out := out
  pending := ⟨0, by simp⟩
  received := Poller.received_prefix_accounted n
  account _ := List.prefix_rfl

/-- Another step brings nothing, either. -/
theorem step (unheard : Unheard n m) (h : InStep m.task)
    (step : Step (task LogScript.store epoch settings) m m') : Unheard n m' := by
  obtain ⟨out, samples, account⟩ := (h.dealing_of_step step).of_out h unheard.out
  have account : m'.gone = false → Poller.accounted m' <+: Poller.accounted n := fun here =>
    (account here).trans (unheard.account (step.attached here))
  refine ⟨out, ?_, ?_, account⟩
  · obtain ⟨k, before⟩ := unheard.pending
    rcases samples with same | more
    · exact ⟨k, same.trans before⟩
    · refine ⟨k + 1, ?_⟩
      rw [more, before, List.append_assoc, List.replicate_succ']
  · cases here : m'.gone with
    | false => exact (Poller.received_prefix_accounted m').trans (account here)
    | true =>
      rw [step.received_eq_of_gone here]
      exact unheard.received

theorem of_steps (h : InStep n.task) (out : n.script.pages = [])
    (run : Steps (task LogScript.store epoch settings) n m) : Unheard n m := by
  induction run with
  | refl => exact refl out
  | tail before step ih =>
    refine ih.step ?_ step
    exact before.keeps (P := fun m => InStep m.task) (fun step h => h.step step) h

end Unheard

/-- A tail to which its script is silent once it has run out. -/
structure SilentWithoutAnswers (epoch : Int) (settings : LogSettings) (n : ScriptWatch) : Prop where
  /-- The script remembers the token that the tail will send. -/
  token : n.script.lastToken = n.query.token
  /-- And this is what is sent when the next query is. -/
  sent : ∀ m : ScriptWatch, Step (task LogScript.store epoch settings) n m →
    m.script.times ≠ n.script.times → m.query.token = n.script.lastToken
  /-- A query that is answered is the one that was sent. -/
  answered : ∀ m : ScriptWatch, Step (task LogScript.store epoch settings) n m →
    m.script.queries ≠ n.script.queries → m.script.queries = n.script.queries ++ [n.query]
  /-- Where no answer is left nothing comes of it. -/
  unanswered : n.script.pages = [] → ∀ m : ScriptWatch,
    Step (task LogScript.store epoch settings) n m → m.script.queries ≠ n.script.queries →
    m.script.pages = [] ∧ m.query = n.query ∧ m.task.samples = n.task.samples ++ [.pending] ∧
      Poller.accounted m = Poller.accounted n
  /-- Until there are more answers all queries bring nothing. -/
  silent : n.script.pages = [] → ∀ m : ScriptWatch,
    Steps (task LogScript.store epoch settings) n m → Unheard n m

/-- **A script that has run out is silent.**  Whatever its answers are, whenever more of them are
added, and whatever the tail, the consumer and the clock do, a script that is asked by one tail
from its beginning remembers the token that the tail will send.  So a query for which there is no
answer brings no event, and until there are more answers nothing comes out of the watch but the
events that were in it. -/
theorem silent_without_script (epoch : Int) (settings : LogSettings)
    (pages : List (Except CloudFault LogPage)) (latencies : List Nat) (group : String)
    (streams : List String) (capacity : Nat) (cancelled : Bool) (n : ScriptWatch)
    (played : Played epoch settings
      (start { pages, latencies } settings group streams capacity cancelled) n) :
    SilentWithoutAnswers epoch settings n where
  token := (inStep_of_played played).token
  sent m step sent := by
    have h := inStep_of_played played
    exact ((h.dealing_of_step step).token_of_sent sent).trans h.token.symm
  answered m step answered :=
    ((inStep_of_played played).dealing_of_step step).queries_of_answered answered
  unanswered out m step answered :=
    ((inStep_of_played played).dealing_of_step step).of_unanswered (inStep_of_played played) out
      answered
  silent out m run := .of_steps (inStep_of_played played) out run

/-- A page, and then one without entries or a token that is added when the first one is read. -/
def hushed : ScriptWatch :=
  ((ScriptWatch.extend
    ((start { pages := [.ok ⟨[⟨"app", 5000, "ready"⟩], some "a"⟩] } {} "group" [] 4
      false).settle (task LogScript.store 1000 {}) 3)
    [.ok ⟨[], none⟩]).advance 1000).settle (task LogScript.store 1000 {}) 2

/-- The watch after another query, for which there is no answer. -/
def asked : ScriptWatch := (hushed.advance 2000).settle (task LogScript.store 1000 {}) 2

/-- The token is gone on both sides, and so the query brings nothing. -/
theorem silent_once_hushed :
    hushed.script.lastToken = none ∧ hushed.query.token = none ∧ hushed.script.pages = [] ∧
      hushed.task.samples.length = 2 ∧ asked.task.samples = hushed.task.samples ++ [.pending] ∧
      asked.received <+: Poller.accounted hushed := by
  have played : Played 1000 {}
      (start { pages := [.ok ⟨[⟨"app", 5000, "ready"⟩], some "a"⟩] } {} "group" [] 4 false)
      hushed :=
    (((Played.refl.steps (Net.steps_settle _ 3 _)).extend _).step
      (.elapse _ 1000 (List.isEmpty_iff.mp (by decide +kernel)) (by decide +kernel)
        (by decide +kernel))).steps (Net.steps_settle _ 2 _)
  have later : Steps (task LogScript.store 1000 {}) hushed asked :=
    (Steps.refl hushed).settle_at 2000 2 (by decide +kernel) (by decide +kernel)
      (by decide +kernel)
  have silent := silent_without_script 1000 {} _ _ _ _ _ _ hushed played
  have gone : hushed.query.token = none := by decide +kernel
  have out : hushed.script.pages = [] := List.isEmpty_iff.mp (by decide +kernel)
  obtain ⟨-, ⟨k, samples⟩, received, -⟩ := silent.silent out asked later
  have two : hushed.task.samples.length = 2 := by decide +kernel
  have three : asked.task.samples.length = 3 := by decide +kernel
  obtain rfl : k = 1 := by
    rw [samples, List.length_append, List.length_replicate, two] at three
    omega
  exact ⟨silent.token.trans gone, gone, out, two, samples, received⟩

end Tail

end DeployWatch
