/-
# How often a service is asked

A service may change with every question and take its time over it, so what it answers to a
question is fixed only by the questions before.  Asked at once, and then again and again with one
pause after each answer, it has a course (`Service.standing`, `Service.call`).  Probing follows
that course: while the answers are failures it stands where the course does
(`probeFrom_of_failure`, `probeFrom_of_failures`), and it ends with the first good answer
(`probeFrom_of_success`) or when no attempt is left.

The questions that are really asked are those that a service remembers (`Service.remembering`), and
a service that remembers is probed as the service itself is (`attempt_remembering`).  The main
statement is `Service.probes_boundedly`.
-/

import Mathlib.Data.List.Range
import Mathlib.Data.Nat.Find
import DeployWatch.Health.Probe

namespace DeployWatch

open DeployWatch.Time

/-- A question to a service, with its answer. -/
structure ServiceCall where
  /-- When it was asked. -/
  asked : Nat
  /-- The ticks that the answer took. -/
  latency : Nat
  answer : Except CloudFault Unit

/-- When a question was answered. -/
def ServiceCall.answered (call : ServiceCall) : Nat := call.asked + call.latency

namespace Service

variable {σ : Type} (service : Service σ)

/-! ### The course of a service -/

/-- The question that a service in a state is asked at a time. -/
def callAt (now : Nat) (s : σ) : ServiceCall where
  asked := now
  latency := (service.ask now s).2.1
  answer := (service.ask now s).2.2

/-- The service that remembers the questions that it was asked. -/
def remembering : Service (σ × List ServiceCall) where
  endpoint := service.endpoint
  ask now s := (((service.ask now s.1).1, s.2 ++ [service.callAt now s.1]), (service.ask now s.1).2)

variable (pause : Nat) (s : σ)

/-- When the question after so many others is asked, and the state that the service is in then: the
first one at once, and every other one a pause after the answer before it. -/
def standing : Nat → Nat × σ
  | 0 => (0, s)
  | k + 1 => ((service.callAt (standing k).1 (standing k).2).answered + pause,
      (service.ask (standing k).1 (standing k).2).1)

/-- The question after so many others. -/
def call (k : Nat) : ServiceCall :=
  service.callAt (service.standing pause s k).1 (service.standing pause s k).2

/-- So many questions, from the first one on. -/
def calls (n : Nat) : List ServiceCall := (List.range n).map (service.call pause s)

theorem asked_call_succ (k : Nat) :
    (service.call pause s (k + 1)).asked = (service.call pause s k).answered + pause := rfl

theorem calls_succ (n : Nat) :
    service.calls pause s (n + 1) = service.calls pause s n ++ [service.call pause s n] := by
  rw [calls, List.range_succ, List.map_append, List.map_singleton, calls]

/-- A service that remembers the first questions of its course remembers the next one, too. -/
theorem ask_remembering (k : Nat) :
    service.remembering.ask (service.standing pause s k).1
        ((service.standing pause s k).2, service.calls pause s k) =
      (((service.standing pause s (k + 1)).2, service.calls pause s (k + 1)),
        (service.call pause s k).latency, (service.call pause s k).answer) := by
  rw [calls_succ]
  rfl

/-! ### One attempt -/

section Attempt

variable {service pause} {left now asked latency : Nat} {isFirst : Bool} {state state' : σ}
  (last : Option CloudFault)

theorem attempt_of_success (time : (if isFirst then now else now + pause) = asked)
    (reply : service.ask asked state = (state', latency, .ok ())) :
    service.attempt pause (left + 1) isFirst now state last =
      ⟨state', asked + latency, .ok ()⟩ := by
  simp [attempt, time, reply]

theorem attempt_of_failure {fault : CloudFault}
    (time : (if isFirst then now else now + pause) = asked)
    (reply : service.ask asked state = (state', latency, .error fault)) :
    service.attempt pause (left + 1) isFirst now state last =
      service.attempt pause left false (asked + latency) state' (some fault) := by
  simp [attempt, time, reply]

end Attempt

/-- Remembering the questions changes nothing else. -/
theorem attempt_remembering (left : Nat) (isFirst : Bool) (now : Nat) (state : σ)
    (log : List ServiceCall) (last : Option CloudFault) :
    let outcome := service.remembering.attempt pause left isFirst now (state, log) last
    service.attempt pause left isFirst now state last =
      ⟨outcome.state.1, outcome.time, outcome.result⟩ := by
  induction left generalizing isFirst now state log last with
  | zero => rfl
  | succ left ih =>
    rcases reply : service.ask (if isFirst then now else now + pause) state with
      ⟨state', latency, answer⟩
    have remembered : service.remembering.ask (if isFirst then now else now + pause) (state, log) =
        ((state', log ++ [service.callAt (if isFirst then now else now + pause) state]), latency,
          answer) := by
      simp only [remembering, reply]
    cases answer with
    | ok => rw [attempt_of_success _ rfl reply, attempt_of_success _ rfl remembered]
    | error fault =>
      rw [attempt_of_failure _ rfl reply, attempt_of_failure _ rfl remembered]
      exact ih ..

/-! ### Probing along the course -/

/-- Probing with so many attempts left, where the course stands after so many questions, all of
them failures. -/
def probeFrom (left : Nat) : Nat → Outcome (σ × List ServiceCall)
  | 0 => service.remembering.attempt pause left true 0 (s, []) none
  | k + 1 => service.remembering.attempt pause left false (service.call pause s k).answered
      ((service.standing pause s (k + 1)).2, service.calls pause s (k + 1))
      (match (service.call pause s k).answer with
        | .ok () => none
        | .error fault => some fault)

/-- The first question and every other one come at the time at which the course asks them. -/
theorem exists_probeFrom_eq (left k : Nat) : ∃ isFirst now last,
    (if isFirst then now else now + pause) = (service.standing pause s k).1 ∧
    service.probeFrom pause s left k = service.remembering.attempt pause left isFirst now
      ((service.standing pause s k).2, service.calls pause s k) last := by
  cases k with
  | zero => exact ⟨true, 0, none, rfl, rfl⟩
  | succ k => exact ⟨false, (service.call pause s k).answered, _, rfl, rfl⟩

theorem probeFrom_of_success {left k : Nat} (good : (service.call pause s k).answer = .ok ()) :
    service.probeFrom pause s (left + 1) k =
      ⟨((service.standing pause s (k + 1)).2, service.calls pause s (k + 1)),
        (service.call pause s k).answered, .ok ()⟩ := by
  have asked := service.ask_remembering pause s k
  rw [good] at asked
  obtain ⟨isFirst, now, last, time, stands⟩ := service.exists_probeFrom_eq pause s (left + 1) k
  rw [stands]
  exact attempt_of_success last time asked

theorem probeFrom_of_failure {left k : Nat} {fault : CloudFault}
    (bad : (service.call pause s k).answer = .error fault) :
    service.probeFrom pause s (left + 1) k = service.probeFrom pause s left (k + 1) := by
  have asked := service.ask_remembering pause s k
  rw [bad] at asked
  obtain ⟨isFirst, now, last, time, stands⟩ := service.exists_probeFrom_eq pause s (left + 1) k
  rw [stands, probeFrom, bad]
  exact attempt_of_failure last time asked

/-- Failures use up one attempt each. -/
theorem probeFrom_of_failures {left k : Nat}
    (bad : ∀ i < k, (service.call pause s i).answer ≠ .ok ()) :
    service.probeFrom pause s (left + k) 0 = service.probeFrom pause s left k := by
  induction k generalizing left with
  | zero => rfl
  | succ k ih =>
    have earlier : ∀ i < k, (service.call pause s i).answer ≠ .ok () :=
      fun i lt => bad i (Nat.lt_succ_of_lt lt)
    cases answer : (service.call pause s k).answer with
    | ok => exact absurd answer (bad k (Nat.lt_succ_self k))
    | error fault =>
      rw [← service.probeFrom_of_failure pause s answer, ← ih earlier, Nat.add_right_comm,
        Nat.add_assoc]

section Ends

variable {bound : Nat}

/-- The first good answer ends a probe. -/
theorem probe_of_success {k : Nat} (lt : k < bound)
    (good : (service.call pause s k).answer = .ok ())
    (bad : ∀ i < k, (service.call pause s i).answer ≠ .ok ()) :
    service.probeFrom pause s bound 0 =
      ⟨((service.standing pause s (k + 1)).2, service.calls pause s (k + 1)),
        (service.call pause s k).answered, .ok ()⟩ := by
  obtain ⟨left, rfl⟩ := Nat.exists_eq_add_of_lt lt
  rw [show k + left + 1 = left + 1 + k by omega, service.probeFrom_of_failures pause s bad,
    service.probeFrom_of_success pause s good]

/-- Without a good answer a probe ends when no attempt is left, and keeps the last failure. -/
theorem probe_of_failures (pos : 0 < bound)
    (bad : ∀ i < bound, (service.call pause s i).answer ≠ .ok ()) :
    ∃ fault, (service.call pause s (bound - 1)).answer = .error fault ∧
      service.probeFrom pause s bound 0 =
        ⟨((service.standing pause s bound).2, service.calls pause s bound),
          (service.call pause s (bound - 1)).answered, .error (some fault)⟩ := by
  obtain ⟨k, rfl⟩ := Nat.exists_eq_succ_of_ne_zero pos.ne'
  cases answer : (service.call pause s k).answer with
  | ok => exact absurd answer (bad k (Nat.lt_succ_self k))
  | error fault =>
    refine ⟨fault, answer, ?_⟩
    have used_up :
        service.probeFrom pause s (0 + (k + 1)) 0 = service.probeFrom pause s 0 (k + 1) :=
      service.probeFrom_of_failures pause s bad
    rw [Nat.succ_eq_add_one, ← Nat.zero_add (k + 1), used_up, probeFrom, answer, Nat.zero_add]
    rfl

end Ends

/-! ### What a probe asks -/

/-- A probe asks the questions of a course, in their order and so many at most. -/
structure BoundedProbe (course : Nat → ServiceCall) (pause bound : Nat) (endpoint : String)
    (asked : List ServiceCall) (time : Nat) (result : Except HealthFault Unit) : Prop where
  healthy_iff : result = .ok () ↔ ∃ k < bound, (course k).answer = .ok ()
  /-- The first good answer is the last that it waits for. -/
  until_success : ∀ k < bound, (course k).answer = .ok () →
    (∀ i < k, (course i).answer ≠ .ok ()) → asked = (List.range (k + 1)).map course
  /-- Without a good answer it asks as often as it may, and reports the last failure. -/
  until_bound : (∀ k < bound, (course k).answer ≠ .ok ()) →
    asked = (List.range bound).map course ∧
      ∃ fault, (course (bound - 1)).answer = .error fault ∧
        result = .error (.timeout endpoint bound (some fault))
  /-- There is no pause before the first question. -/
  at_once : asked.head?.map (·.asked) = some 0
  /-- There is one pause between an answer and the next question. -/
  one_pause : asked.IsChain fun call next => next.asked = call.answered + pause
  /-- There is no pause after the last answer. -/
  ends : asked.getLast?.map (·.answered) = some time

variable {s}

/-- Some first questions of a course are asked at its pace. -/
theorem paced_calls (n : Nat) :
    let asked := service.calls pause s (n + 1)
    asked.head?.map (·.asked) = some 0 ∧
      (asked.IsChain fun call next => next.asked = call.answered + pause) ∧
      asked.getLast?.map (·.answered) = some (service.call pause s n).answered := by
  refine ⟨?_, ?_, ?_⟩
  · rw [calls, List.range_succ_eq_map]
    rfl
  · rw [calls, List.isChain_map, List.isChain_range_succ]
    exact fun k _ => service.asked_call_succ pause s k
  · rw [calls_succ, List.getLast?_append]
    rfl

variable (s)

theorem attempts_pos (policy : RetryPolicy) : 0 < attempts policy :=
  Nat.lt_of_lt_of_le Nat.one_pos (Nat.le_max_right ..)

/-- The verdict on a service, from how probing it ended. -/
def verdict (bound : Nat) (ended : Except (Option CloudFault) Unit) : Except HealthFault Unit :=
  match ended with
  | .ok () => .ok ()
  | .error last => .error (.timeout service.endpoint bound last)

/-- A probe asks the questions of the course up to the first good answer or the bound. -/
theorem boundedProbe {bound : Nat} (pos : 0 < bound) :
    let outcome := service.probeFrom pause s bound 0
    BoundedProbe (service.call pause s) pause bound service.endpoint outcome.state.2 outcome.time
      (service.verdict bound outcome.result) := by
  intro outcome
  by_cases healthy : ∃ k < bound, (service.call pause s k).answer = .ok ()
  · classical
    obtain ⟨k, ⟨lt, good⟩, first⟩ := Nat.findX healthy
    have bad : ∀ i < k, (service.call pause s i).answer ≠ .ok () :=
      fun i below good => first i below ⟨below.trans lt, good⟩
    obtain ⟨at_once, one_pause, ends⟩ := service.paced_calls pause (s := s) k
    simp only [outcome, service.probe_of_success pause s lt good bad]
    refine ⟨by simp [verdict, healthy], ?_, ?_, at_once, one_pause, ends⟩
    · intro k' _ good' bad'
      have same : k' = k := by
        rcases Nat.lt_trichotomy k' k with below | same | above
        · exact absurd good' (bad k' below)
        · exact same
        · exact absurd good (bad' k above)
      rw [same, calls]
    · intro none
      exact absurd good (none k lt)
  · have bad : ∀ k < bound, (service.call pause s k).answer ≠ .ok () :=
      fun k lt good => healthy ⟨k, lt, good⟩
    obtain ⟨fault, last, used_up⟩ := service.probe_of_failures pause s pos bad
    obtain ⟨at_once, one_pause, ends⟩ := service.paced_calls pause (s := s) (bound - 1)
    rw [Nat.sub_add_cancel pos] at at_once one_pause ends
    simp only [outcome, used_up]
    refine ⟨by simp [verdict, healthy], ?_, ?_, at_once, one_pause, ends⟩
    · intro k lt good
      exact absurd good (bad k lt)
    · intro _
      exact ⟨rfl, fault, last, rfl⟩

/-- **Probing is bounded.**  Whatever a service answers and however long it takes, probing asks it
until its first good answer or as often as the policy says, and at least once, with one pause
between two questions and none elsewhere.  The pause lasts the delay of the policy, to the tick: on
a clock that counts nanoseconds it is just as long.  Probing succeeds just if there was a good
answer, else the last failure is reported; and a client is made just if it succeeds. -/
theorem probes_boundedly (policy : RetryPolicy) (clock : Clock) :
    ∃ pause, clock.Lasts pause policy.delay ∧
      let probe := service.remembering.waitUntilHealthy policy (s, []) clock
      BoundedProbe (service.call pause s) pause (max policy.count 1) service.endpoint probe.1.2
          probe.2.1 probe.2.2 ∧
        service.waitUntilHealthy policy s clock = (probe.1.1, probe.2) ∧
        (∀ client, (WorkflowClient.connect service policy s clock).2.2 = .ok client ↔
          probe.2.2 = .ok () ∧ client = ⟨service.endpoint⟩) ∧
        ∀ fault, (WorkflowClient.connect service policy s clock).2.2 = .error fault ↔
          probe.2.2 = .error fault := by
  refine ⟨clock.ticks policy.delay, clock.lasts_ticks policy.delay, ?_⟩
  intro probe
  have unchanged : service.waitUntilHealthy policy s clock = (probe.1.1, probe.2) := by
    simp only [waitUntilHealthy, probe, service.attempt_remembering _ _ _ _ s []]
    rfl
  have connected : (WorkflowClient.connect service policy s clock).2.2 =
      probe.2.2.map fun () => ⟨service.endpoint⟩ := by
    rw [WorkflowClient.connect, unchanged]
  refine ⟨?_, unchanged, fun client => ?_, fun fault => ?_⟩
  · exact service.boundedProbe (clock.ticks policy.delay) s (attempts_pos policy)
  · rw [connected]
    cases probe.2.2 <;> simp [Except.map, eq_comm]
  · rw [connected]
    cases probe.2.2 <;> simp [Except.map]

end Service

end DeployWatch
