/-
# A tail follows the fold over the answers of its store

What holds of a tail that is abreast of what has been said, put in terms of the queries, the answers
and the events alone (`Tail.FollowsDigest`).  With a consumer that drains the queue all that the
fold makes of the answers is received, and a fault closes the queue.

The main statement is `Tail.follows_digest`.
-/

import DeployWatch.Proofs.Logs.Digest
import DeployWatch.Proofs.Watch.Endurance

namespace DeployWatch.Tail

open DeployWatch.Watch DeployWatch.Watch.Net

variable {σ : Type} {store : LogStore σ} {epoch : Int} {settings : LogSettings}

section Runs

variable {init : σ} {group : String} {streams : List String} {capacity : Nat} {cancelled : Bool}
  {log : List Saying} {n : Net (Poller (Tail σ) TailEvent) TailEvent}

/-! ### What has been received, and when it is over -/

/-- A tail that will take no further sample, and was neither cancelled nor left, got a fault. -/
theorem fault_of_isLast
    (chronicle : Chronicle (task store epoch settings) (sayings store)
      (start init settings group streams capacity cancelled) log n)
    (here : n.gone = false) (on : n.cancelled = false) (last : n.task.phase.isLast = true) :
    ∃ fault, .error fault ∈ answersOf log := by
  have course := Poller.course_of_steps chronicle.steps (Poller.Tracks.fresh _ _)
    (Poller.course_start _) here on
  rw [Poller.Course, if_pos last] at course
  obtain ⟨before, final, samples, -, terminal⟩ := course
  obtain ⟨length_eq, given⟩ := (abreast_of_chronicle chronicle).samples
  rw [samples] at length_eq given
  have here : before.length < (answersOf log).length := by
    rw [← length_eq, List.length_append]
    exact Nat.lt_succ_self _
  have sample := given before.length _ (List.getElem?_eq_getElem here)
  rw [List.getElem?_concat_length, Option.some.injEq] at sample
  rw [sample] at terminal
  obtain ⟨fault, eq⟩ := (absorb_terminal _ _).mp terminal
  exact ⟨fault, eq ▸ List.getElem_mem here⟩

/-- A tail that got a fault takes no further sample. -/
theorem isLast_of_fault
    (chronicle : Chronicle (task store epoch settings) (sayings store)
      (start init settings group streams capacity cancelled) log n)
    {fault : CloudFault} (got : .error fault ∈ answersOf log) : n.task.phase.isLast = true := by
  obtain ⟨i, h⟩ := List.mem_iff_getElem?.mp got
  exact ((abreast_of_chronicle chronicle).fault i fault h).2

/-- While nobody cancels and the consumer is there, what is received, queued and held is what the
fold makes of the answers. -/
theorem accounted_of_chronicle
    (chronicle : Chronicle (task store epoch settings) (sayings store)
      (start init settings group streams capacity cancelled) log n)
    (here : n.gone = false) (on : n.cancelled = false) :
    Poller.accounted n = (Digest.of (answersOf log)).events := by
  rw [← (abreast_of_chronicle chronicle).emitted]
  exact Poller.accounted_eq_emitted chronicle.steps (Poller.Tracks.fresh _ _)
    (Poller.accounted_start _ _ _) here on

/-! ### Following the fold -/

/-- How a tail follows the fold over the answers of its store. -/
structure FollowsDigest (epoch : Int) (base : LogQuery) (log : List Saying)
    (n : Net (Poller (Tail σ) TailEvent) TailEvent) : Prop where
  /-- Every query is the first one, with the token of the answers before it. -/
  queries : ∀ i query, (queriesOf log)[i]? = some query →
    query = { base with start := some epoch, token := (Digest.of ((answersOf log).take i)).token }
  /-- There is no query before the one before it is answered. -/
  in_turn : (answersOf log).length ≤ (queriesOf log).length ∧
    (queriesOf log).length ≤ (answersOf log).length + 1
  /-- There is no query after a fault. -/
  ends : ∀ i fault, (answersOf log)[i]? = some (.error fault) → (queriesOf log).length = i + 1
  /-- Nothing else is received, and nothing out of turn. -/
  received : n.received <+: (Digest.of (answersOf log)).events
  /-- As long as nobody has cancelled or left, nothing is lost. -/
  complete : n.gone = false → n.cancelled = false →
    n.received ++ n.queue ++ n.task.phase.held = (Digest.of (answersOf log)).events
  /-- Only a fault closes the queue of a tail that nobody has cancelled or left. -/
  closed : n.gone = false → n.cancelled = false → n.task.phase = .ended →
    ∃ fault, .error fault ∈ answersOf log

theorem followsDigest_of_chronicle
    (chronicle : Chronicle (task store epoch settings) (sayings store)
      (start init settings group streams capacity cancelled) log n) :
    FollowsDigest epoch { group, streams, filter := settings.filter } log n := by
  have abreast := abreast_of_chronicle chronicle
  have tracks := Poller.tracks_of_steps chronicle.steps (Poller.Tracks.fresh _ _)
  refine ⟨abreast.asked, ?_, ?_, ?_, ?_, ?_⟩
  · by_cases flying : ∃ due, n.task.phase = .sampling due
    · obtain ⟨due, phase⟩ := flying
      have := abreast.unanswered tracks phase
      omega
    · have := abreast.answered tracks fun due phase => flying ⟨due, phase⟩
      omega
  · intro i fault h
    obtain ⟨last, stopped⟩ := abreast.fault i fault h
    rw [abreast.answered tracks (Poller.phase_ne_sampling_of_isLast stopped), last]
  · rw [← abreast.emitted]
    exact Poller.received_prefix_emitted chronicle.steps (Poller.Tracks.fresh _ _)
      (Poller.accounted_start _ _ _)
  · intro here on
    exact accounted_of_chronicle chronicle here on
  · intro here on ended
    exact fault_of_isLast chronicle here on (by rw [ended]; rfl)

/-! ### With a consumer that drains the queue -/

variable {run : Run (task store epoch settings)
  (start init settings group streams capacity false)}

/-- All that the fold makes of the answers so far is received at some point. -/
theorem exists_digest_received (fair : run.Draining) (steady : run.Steady) (i : Nat) :
    ∃ j ≥ i, (Digest.of (answersOf (run.log (sayings store) i))).events <+:
      (run.state j).received := by
  rw [← accounted_of_chronicle (run.chronicle sayings_self i) (fair.attached i) (steady i)]
  exact Poller.exists_received fair steady (start_capacity_pos _ _ _) (Poller.Tracks.fresh _ _) i

/-- There is no answer after a fault. -/
theorem answers_eq_of_fault {i l : Nat} {fault : CloudFault}
    (got : .error fault ∈ answersOf (run.log (sayings store) i)) (le : i ≤ l) :
    answersOf (run.log (sayings store) l) = answersOf (run.log (sayings store) i) := by
  have grown : answersOf (run.log (sayings store) i) <+: answersOf (run.log (sayings store) l) :=
    (run.log_prefix (sayings store) le).filterMap _
  obtain ⟨k, within, eq⟩ := List.mem_iff_getElem.mp got
  have here := (abreast_of_chronicle (run.chronicle sayings_self i)).fault k fault
    (by rw [List.getElem?_eq_getElem within, eq])
  have there := (abreast_of_chronicle (run.chronicle sayings_self l)).fault k fault
    (by rw [List.prefix_iff_getElem?.mp grown k within, eq])
  exact (grown.eq_of_length (here.1.symm.trans there.1)).symm

/-- After a fault the queue reads closed at some point, and then exactly what the fold makes of
the answers has been received. -/
theorem closes_after_fault (fair : run.Draining) (steady : run.Steady) {i : Nat}
    {fault : CloudFault} (got : .error fault ∈ answersOf (run.log (sayings store) i)) :
    ∃ j ≥ i, ∀ l ≥ j, (run.state l).isClosed (task store epoch settings) = true ∧
      (run.state l).received = (Digest.of (answersOf (run.log (sayings store) i))).events := by
  have last := isLast_of_fault (run.chronicle sayings_self i) got
  have room : 0 < (run.state i).capacity := by
    rw [run.capacity_eq]
    exact start_capacity_pos _ _ _
  have on : ∀ l, (run.state l).cancelled = false := steady
  obtain ⟨d, closed⟩ := (fair.after i).exists_isClosed (fun l => (on _).trans (on i).symm)
    (Poller.responsive _ _) room (Poller.acc_of_isLast last)
  refine ⟨i + d, by omega, ?_⟩
  intro l later
  have closed := Run.isClosed_of_le (Poller.responsive _ _) later closed
  refine ⟨closed, ?_⟩
  obtain ⟨empty, ended⟩ := Poller.queue_and_phase_of_isClosed closed
  rw [← answers_eq_of_fault got (show i ≤ l by omega),
    ← accounted_of_chronicle (run.chronicle sayings_self l) (fair.attached l) (on l)]
  simp [Poller.accounted, Poller.sent, empty, ended]

/-- A tail gets a fault, or as many answers as one likes. -/
theorem fault_or_goes_on (fair : run.Draining) (steady : run.Steady) :
    (∃ i fault, .error fault ∈ answersOf (run.log (sayings store) i)) ∨
      ∀ k, ∃ i, k ≤ (answersOf (run.log (sayings store) i)).length := by
  have again : ∀ j, ∃ l ≥ j, (run.state l).isClosed (task store epoch settings) = true ∨
      (run.state j).task.samples.length < (run.state l).task.samples.length :=
    Poller.takes_more_samples (Poller.Tracks.fresh _ _) fair steady (start_capacity_pos _ _ _)
  rcases Run.exists_or_forall_ge
    (P := fun m : Net (Poller (Tail σ) TailEvent) TailEvent =>
      m.isClosed (task store epoch settings) = true)
    (f := fun m : Net (Poller (Tail σ) TailEvent) TailEvent => m.task.samples.length)
    again with ⟨i, closed⟩ | goes_on
  · obtain ⟨-, ended⟩ := Poller.queue_and_phase_of_isClosed closed
    exact .inl ⟨i, fault_of_isLast (run.chronicle sayings_self i) (fair.attached i) (steady i)
      (by rw [ended]; rfl)⟩
  · right
    intro k
    obtain ⟨i, many⟩ := goes_on k
    refine ⟨i, ?_⟩
    rw [← (abreast_of_chronicle (run.chronicle sayings_self i)).samples.1]
    exact many

/-- **A tail follows the fold over the answers of its store.**  Whatever the store answers, every
query is the first one with the token of the fold over the answers before it, and after a fault
there is no other.  What is received, queued and held is, in this order, what the fold makes of the
answers, as long as nobody cancels or leaves.  And in a draining run that nobody cancels all that
the fold makes of the answers is received: if there is a fault, the queue then reads closed;
otherwise the tail gets as many answers as one likes. -/
theorem follows_digest (store : LogStore σ) (epoch : Int) (settings : LogSettings) (init : σ)
    (group : String) (streams : List String) (capacity : Nat) :
    (∀ cancelled log n, Chronicle (task store epoch settings) (sayings store)
        (start init settings group streams capacity cancelled) log n →
      FollowsDigest epoch { group, streams, filter := settings.filter } log n) ∧
    ∀ run : Run (task store epoch settings) (start init settings group streams capacity false),
      run.Draining → run.Steady →
        (∀ i, Chronicle (task store epoch settings) (sayings store)
          (start init settings group streams capacity false) (run.log (sayings store) i)
            (run.state i)) ∧
        (∀ i, ∃ j ≥ i, (Digest.of (answersOf (run.log (sayings store) i))).events <+:
          (run.state j).received) ∧
        (∀ i fault, .error fault ∈ answersOf (run.log (sayings store) i) →
          ∃ j ≥ i, ∀ l ≥ j, (run.state l).isClosed (task store epoch settings) = true ∧
            (run.state l).received =
              (Digest.of (answersOf (run.log (sayings store) i))).events) ∧
        ((∃ i fault, .error fault ∈ answersOf (run.log (sayings store) i)) ∨
          ∀ k, ∃ i, k ≤ (answersOf (run.log (sayings store) i)).length) := by
  constructor
  · intro cancelled log n chronicle
    exact followsDigest_of_chronicle chronicle
  · intro run fair steady
    refine ⟨run.chronicle sayings_self, exists_digest_received fair steady, ?_,
      fault_or_goes_on fair steady⟩
    intro i fault got
    exact closes_after_fault fair steady got

end Runs

/-- A token that is repeated, goes and comes back, with the same entry each time, and then a fault.
-/
def tokenComesBack : LogScript where
  pages := [.ok ⟨[⟨"web", 0, "up"⟩], some "a"⟩, .ok ⟨[⟨"web", 0, "up"⟩], some "a"⟩,
    .ok ⟨[], none⟩, .ok ⟨[⟨"web", 0, "up"⟩], some "a"⟩, .error (.unavailable "away")]

/-- A tail of these pages with an eager consumer. -/
def comesBack : Run (task LogScript.store 1000 {}) (start tokenComesBack {} "group" [] 1 false) :=
  .eager _ rfl

/-- The event of its entry. -/
def upEvent : TailEvent := { lines := ["1970-01-01T00:00:00+00:00 [web] up"] }

theorem eq_upEvent :
    ({ lines := (LogEntry.arranged [⟨"web", 0, "up"⟩]).map LogEntry.text } : TailEvent) =
      upEvent := by
  rw [← eventOf_eq]
  decide +kernel

/-- The entry is delivered when the token comes up and when it comes back, and then the fault. -/
theorem follows_digest_of_token :
    comesBack.Draining ∧ comesBack.Steady ∧
    queriesOf (comesBack.log (sayings LogScript.store) 20) =
      [none, some "a", some "a", none, some "a"].map
        (fun token => { group := "group", start := some 1000, token }) ∧
    answersOf (comesBack.log (sayings LogScript.store) 20) = tokenComesBack.pages ∧
    FollowsDigest 1000 { group := "group" } (comesBack.log (sayings LogScript.store) 20)
      (comesBack.state 20) ∧
    ∃ j, ∀ l ≥ j, (comesBack.state l).isClosed (task LogScript.store 1000 {}) = true ∧
      (comesBack.state l).received =
        [upEvent, upEvent, { fault := some (.unavailable "away") }] := by
  have fair : comesBack.Draining := Run.eager_draining rfl Poller.patient
  have steady : comesBack.Steady := Run.eager_steady rfl
  have answers : answersOf (comesBack.log (sayings LogScript.store) 20) = tokenComesBack.pages := by
    rfl
  obtain ⟨always, live⟩ := follows_digest LogScript.store 1000 {} tokenComesBack "group" [] 1
  obtain ⟨chronicle, -, closes, -⟩ := live comesBack fair steady
  refine ⟨fair, steady, by decide +kernel, answers, always false _ _ (chronicle 20), ?_⟩
  obtain ⟨j, -, closed⟩ := closes 20 (.unavailable "away") (by rw [answers]; simp [tokenComesBack])
  refine ⟨j, ?_⟩
  intro l later
  refine ⟨(closed l later).1, ?_⟩
  rw [(closed l later).2, answers]
  simp [tokenComesBack, Digest.of, Digest.read, eq_upEvent]

end DeployWatch.Tail
