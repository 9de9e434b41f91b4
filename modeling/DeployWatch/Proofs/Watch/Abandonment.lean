/-
# Leaving a poller alone

A poller notices that its consumer has left only when it sends an event.  So a consumer that leaves
while the poller has events to send has it stop there (`Poller.cycles_of_halts`), and otherwise the
poller goes on with samples of which nothing comes, up to the first one that has events or is
terminal (`Poller.Alone`).  Every turn keeps this, and a run that does not starve the poller takes
it to its end or goes on for ever.

The main statement is `Poller.stops_at_first_stir`.
-/

import DeployWatch.Proofs.Watch.Endurance

namespace DeployWatch.Watch

variable {σ ε : Type}

/-- Something comes of the sample: it has events or is the last one. -/
def Sample.stirs (x : Sample ε) : Bool := !x.events.isEmpty || x.terminal

/-- Without a consumer a poller in this phase takes no further sample. -/
def Phase.halts : Phase ε → Bool
  | .forwarding _ _ _ => true
  | .ended => true
  | _ => false

@[simp] theorem Phase.halts_fresh : (fresh : Phase ε).halts = false := rfl

@[simp] theorem Phase.halts_waiting (due : Nat) : (waiting due : Phase ε).halts = false := rfl

@[simp] theorem Phase.halts_sampling (due : Nat) : (sampling due : Phase ε).halts = false := rfl

@[simp] theorem Phase.halts_forwarding (e : ε) (rest : List ε) (terminal : Bool) :
    (forwarding e rest terminal).halts = true := rfl

@[simp] theorem Phase.halts_ended : (ended : Phase ε).halts = true := rfl

namespace Poller

open Net

variable {sampler : Sampler σ ε} {schedule : Schedule} {s : σ} {p : Poller σ ε}
  {a b n m : Net (Poller σ ε) ε} {first : List (Sample ε)}

/-- A poller without a consumer halts after a sample just if something comes of it. -/
@[simp] theorem forward_halts (now : Nat) (x : Sample ε) :
    (p.forward schedule now x.events x.terminal).phase.halts = x.stirs := by
  obtain ⟨events, terminal⟩ := x
  cases events <;> cases terminal <;> simp [forward, Sample.stirs]

/-! ### Nothing is queued any more -/

/-- Nothing is queued for a consumer that has left. -/
theorem event_of_gone (n : Net (Poller σ ε) ε) (gone : n.gone = true) :
    ∀ move ∈ n.moves (task sampler schedule), move.event = none := by
  intro move hm
  cases mem_moves_iff.mp hm with
  | send _ _ _ _ here =>
    rw [show n.view.gone = n.gone from rfl, gone] at here
    cases here
  | rest | look | quit | discard | keep | giveUp => rfl

/-- What a consumer that has left leaves behind is all that it has received. -/
theorem silent_of_steps (run : Steps (task sampler schedule) a b) (gone : a.gone = true)
    (empty : a.queue = []) : b.queue = [] ∧ b.received = a.received := by
  have kept : b.gone = true ∧ b.queue = [] ∧ b.received = a.received := by
    refine run.keeps (P := fun m => m.gone = true ∧ m.queue = [] ∧ m.received = a.received) ?_
      ⟨gone, empty, rfl⟩
    rintro n m step ⟨gone, empty, received⟩
    refine ⟨step.gone gone, ?_⟩
    cases step with
    | task move hm => exact ⟨by simp [take, empty, event_of_gone n gone move hm], received⟩
    | receive _ e here h =>
      rw [gone] at here
      cases here
    | drop => exact ⟨rfl, received⟩
    | cancel | elapse => exact ⟨empty, received⟩
  exact kept.2

/-! ### Left alone with events to send -/

/-- A poller that has events to send for nobody takes no further sample. -/
theorem cycles_of_halts (run : Steps (task sampler schedule) a b) (gone : a.gone = true)
    (halts : a.task.phase.halts = true) :
    b.task.phase.halts = true ∧ b.task.cycles = a.task.cycles := by
  have kept : b.gone = true ∧ b.task.phase.halts = true ∧ b.task.cycles = a.task.cycles := by
    refine run.keeps (P := fun m => m.gone = true ∧ m.task.phase.halts = true ∧
      m.task.cycles = a.task.cycles) ?_ ⟨gone, halts, rfl⟩
    rintro n m step ⟨gone, halts, cycles⟩
    refine ⟨step.gone gone, ?_⟩
    rcases step.task_eq_or_take with same | ⟨move, hm, rfl⟩
    · rw [same]
      exact ⟨halts, cycles⟩
    · cases mem_moves_iff.mp hm with
      | giveUp => exact ⟨rfl, cycles⟩
      | send _ _ _ _ here =>
        rw [show n.view.gone = n.gone from rfl, gone] at here
        cases here
      | rest phase | quit _ phase | discard _ phase | keep _ phase => simp [phase] at halts
      | look ready => rcases ready with ⟨phase, -⟩ | ⟨_, phase, -⟩ <;> simp [phase] at halts
  exact kept.2

/-! ### Left alone between events -/

/-- The samples of a poller since it was left alone: as long as it goes on they are quiet, and it
halts with the first one that is not. -/
inductive Alone (first : List (Sample ε)) (p : Poller σ ε) : Prop
  | goesOn (quiet : List (Sample ε)) (all : ∀ x ∈ quiet, x.stirs = false)
      (samples : p.samples = first ++ quiet) (goes : p.phase.halts = false) : Alone first p
  | halted (quiet : List (Sample ε)) (last : Sample ε) (all : ∀ x ∈ quiet, x.stirs = false)
      (stir : last.stirs = true) (samples : p.samples = first ++ (quiet ++ [last]))
      (halts : p.phase.halts = true) : Alone first p

/-- The turns of a poller that is left alone and not cancelled. -/
theorem Alone.turn (alone : Alone first p) (tracks : Tracks sampler s p) {v : View}
    {move : Move (Poller σ ε) ε} (gone : v.gone = true) (on : v.cancelled = false)
    (turn : Turn sampler schedule v p move) : Alone first move.state := by
  cases turn with
  | quit _ _ off | discard _ _ _ off =>
    rw [on] at off
    cases off
  | send _ _ _ _ here =>
    rw [gone] at here
    cases here
  | rest phase delay =>
    cases alone with
    | goesOn quiet all samples => exact .goesOn quiet all samples rfl
    | halted _ _ _ _ _ halts => simp [phase] at halts
  | look ready =>
    cases alone with
    | goesOn quiet all samples => exact .goesOn quiet all (by simpa using samples) rfl
    | halted _ _ _ _ _ halts =>
      rcases ready with ⟨phase, -⟩ | ⟨_, phase, -⟩ <;> simp [phase] at halts
  | keep due phase expired =>
    cases alone with
    | goesOn quiet all samples =>
      have one_more : (p.proceeding sampler schedule v.now).samples =
          first ++ (quiet ++ [(sampler.finish v.now p.sampler).2]) := by
        rw [proceeding, forward_samples, tracks.answered_samples phase, samples,
          List.append_assoc]
      have halts : (p.proceeding sampler schedule v.now).phase.halts =
          (sampler.finish v.now p.sampler).2.stirs := forward_halts _ _
      cases stir : (sampler.finish v.now p.sampler).2.stirs with
      | false =>
        refine .goesOn _ ?_ one_more (halts.trans stir)
        intro x hx
        rcases List.mem_append.mp hx with old | new
        · exact all x old
        · rw [List.mem_singleton.mp new]
          exact stir
      | true => exact .halted quiet _ all stir one_more (halts.trans stir)
    | halted _ _ _ _ _ halts => simp [phase] at halts
  | giveUp e rest terminal phase =>
    cases alone with
    | goesOn _ _ _ goes => simp [phase] at goes
    | halted quiet last all stir samples => exact .halted quiet last all stir samples rfl

theorem alone_of_steps (run : Steps (task sampler schedule) a b) (tracks : Tracks sampler s a.task)
    (alone : Alone first a.task) (gone : a.gone = true) (on : b.cancelled = false) :
    Alone first b.task := by
  induction run with
  | refl => exact alone
  | @tail b c before step ih =>
    have b_on := step.steps.uncancelled on
    have b_gone : b.gone = true := before.keeps (P := fun m => m.gone = true)
      (fun step => step.gone) gone
    rcases step.task_eq_or_take with same | ⟨move, hm, rfl⟩
    · rw [same]
      exact ih b_on
    · exact (ih b_on).turn (tracks_of_steps before tracks) b_gone b_on (mem_moves_iff.mp hm)

/-! ### Coming to the end -/

/-- A poller that has ended stays so. -/
theorem ended_from {run : Run (task sampler schedule) n} {i j : Nat} (le : i ≤ j)
    (ended : (run.state i).task.phase = .ended) : (run.state j).task.phase = .ended := by
  refine Run.keeps_from (P := fun m : Net (Poller σ ε) ε => m.task.phase = .ended) ?_ le ended
  intro n m step ended
  rcases step.task_eq_or_take with same | ⟨move, hm, rfl⟩
  · rw [same]
    exact ended
  · exact absurd ended (mem_moves_iff.mp hm).phase_ne_ended

/-- A poller that is left alone ends, or it takes as many samples as one likes. -/
theorem ends_or_goes_on {run : Run (task sampler schedule) n} (fair : run.Deserted)
    (tracks : Tracks sampler s n.task) (gone : n.gone = true) :
    (∃ i, ∀ j ≥ i, (run.state j).task.phase = .ended) ∨
      ∀ k, ∃ i, k ≤ (run.state i).task.samples.length := by
  have again : ∀ j, ∃ l ≥ j, (run.state l).task.phase = .ended ∨
      (run.state j).task.samples.length < (run.state l).task.samples.length := by
    intro j
    apply takes_more_samples_alone tracks fair
    apply Run.gone_from (Nat.zero_le j)
    rw [run.first]
    exact gone
  rcases Run.exists_or_forall_ge (P := fun m : Net (Poller σ ε) ε => m.task.phase = .ended)
    (f := fun m : Net (Poller σ ε) ε => m.task.samples.length) again with ⟨i, ended⟩ | goes_on
  · exact .inl ⟨i, fun j le => ended_from le ended⟩
  · exact .inr goes_on

/-- A poller that is left alone with events to send ends. -/
theorem ends_of_halts {run : Run (task sampler schedule) n} (fair : run.Deserted)
    (tracks : Tracks sampler s n.task) (gone : n.gone = true) (halts : n.task.phase.halts = true) :
    ∃ i, ∀ j ≥ i, (run.state j).task.phase = .ended := by
  rcases ends_or_goes_on fair tracks gone with ends | goes_on
  · exact ends
  · obtain ⟨i, many⟩ := goes_on (n.task.samples.length + 1)
    have same : (run.state i).task.samples = n.task.samples := by
      rw [samples, (cycles_of_halts (run.steps i) gone halts).2, samples]
    rw [same] at many
    omega

/-- A poller that is left alone between events ends with the first sample that is not quiet, or
goes on for ever with quiet ones. -/
theorem stops_or_stays_quiet {run : Run (task sampler schedule) n} (fair : run.Deserted)
    (steady : run.Steady) (tracks : Tracks sampler s n.task) (gone : n.gone = true)
    (on : n.cancelled = false) (goes : n.task.phase.halts = false) :
    (∃ quiet last i, (∀ x ∈ quiet, x.stirs = false) ∧ last.stirs = true ∧
      ∀ j ≥ i, (run.state j).task.phase = .ended ∧
        (run.state j).task.samples = n.task.samples ++ (quiet ++ [last])) ∨
    (∀ i, ∃ quiet, (∀ x ∈ quiet, x.stirs = false) ∧
      (run.state i).task.samples = n.task.samples ++ quiet) ∧
      ∀ k, ∃ i, k ≤ (run.state i).task.samples.length := by
  have start : Alone n.task.samples n.task := .goesOn [] (by simp) (by simp) goes
  have alone : ∀ i, Alone n.task.samples (run.state i).task := fun i =>
    alone_of_steps (run.steps i) tracks start gone ((steady i).trans on)
  have gone_at : ∀ i, (run.state i).gone = true := fun i =>
    Run.gone_from (Nat.zero_le i) (by rw [run.first]; exact gone)
  have samples_eq : ∀ i j, i ≤ j → (run.state i).task.phase.halts = true →
      (run.state j).task.samples = (run.state i).task.samples := by
    intro i j le halts
    obtain ⟨d, rfl⟩ := Nat.exists_eq_add_of_le le
    have later : Steps (task sampler schedule) (run.state i) (run.state (i + d)) :=
      (run.after i).steps d
    rw [samples, samples, (cycles_of_halts later (gone_at i) halts).2]
  rcases ends_or_goes_on fair tracks gone with ⟨i, ended⟩ | goes_on
  · left
    have halts : (run.state i).task.phase.halts = true := by rw [ended i le_rfl]; rfl
    cases alone i with
    | goesOn _ _ _ goes =>
      rw [goes] at halts
      cases halts
    | halted quiet last all stir samples =>
      refine ⟨quiet, last, i, all, stir, ?_⟩
      intro j le
      exact ⟨ended j le, (samples_eq i j le halts).trans samples⟩
  · right
    refine ⟨?_, goes_on⟩
    intro i
    cases alone i with
    | goesOn quiet all samples => exact ⟨quiet, all, samples⟩
    | halted _ _ _ _ _ halts =>
      -- then the samples so far would be all there ever are
      obtain ⟨j, many⟩ := goes_on ((run.state i).task.samples.length + 1)
      rcases Nat.le_total i j with le | le
      · rw [samples_eq i j le halts] at many
        omega
      · have fewer : (run.state j).task.samples.length ≤ (run.state i).task.samples.length :=
          (samples_prefix_of_le tracks le).length_le
        omega

/-- A watch whose consumer leaves has a deserted run in which nobody cancels. -/
theorem exists_deserted (n : Net (Poller σ ε) ε) :
    ∃ run : Run (task sampler schedule) n, run.Deserted ∧ run.Steady :=
  ⟨.alone event_of_gone n, Run.alone_deserted event_of_gone n patient,
    Run.alone_steady event_of_gone n⟩

/-! ### Abandoning a poller -/

/-- How a watch in `m` stands to the state `n` in which its consumer left. -/
structure LeftAlone (sampler : Sampler σ ε) (schedule : Schedule) (s : σ)
    (n m : Net (Poller σ ε) ε) : Prop where
  /-- Nothing is queued for the consumer. -/
  queue : m.queue = []
  received : m.received = n.received
  /-- A poller that halts has no sample in flight and starts no other. -/
  halted : m.task.phase.halts = true → m.task.startTimes.length = m.task.samples.length ∧
    ∀ m', Steps (task sampler schedule) m m' →
      m'.task.startTimes = m.task.startTimes ∧ m'.task.samples = m.task.samples
  /-- A poller that had no event to send goes on, up to the first sample that stirs. -/
  alone : n.task.phase.halts = false → m.cancelled = false → Alone n.task.samples m.task
  /-- Its samples are those of the sampler. -/
  yields : ∃ s', sampler.Yields s m.task.samples s'

theorem leftAlone_of_steps (tracks : Tracks sampler s n.task)
    (run : Steps (task sampler schedule) n.drop m) : LeftAlone sampler schedule s n m := by
  have tracks_m : Tracks sampler s m.task := tracks_of_steps run tracks
  have gone : m.gone = true := run.keeps (P := fun m : Net (Poller σ ε) ε => m.gone = true)
    (fun step => step.gone) rfl
  obtain ⟨empty, received⟩ := silent_of_steps run rfl rfl
  refine ⟨empty, received, ?_, ?_, tracks_m.yields⟩
  · intro halts
    constructor
    · obtain ⟨-, answers⟩ := tracks_m.of_between fun due phase => by simp [phase] at halts
      simp [length_startTimes, answers]
    · intro m' later
      have same := (cycles_of_halts later gone halts).2
      exact ⟨by rw [startTimes, same, startTimes], by rw [samples, same, samples]⟩
  · intro goes on
    have start : Alone n.task.samples n.drop.task := .goesOn [] (by simp) (by simp [drop]) goes
    exact alone_of_steps run tracks start rfl on

/-- **A poller that is abandoned stops at the first stir.**  Let the consumer leave a watch that
nobody has cancelled.  Nothing is queued or received any more.  A poller that has events to send
takes no further sample, and ends if it is not starved.  Any other poller goes on to call its
sampler, with a sample in flight first: its further samples are quiet up to the first one that
stirs, and with this one it stops.  It does come to that sample if there is one, for in a run that
starves nobody it stops in this way or goes on with quiet samples for ever. -/
theorem stops_at_first_stir (sampler : Sampler σ ε) (schedule : Schedule) (s : σ) (capacity : Nat)
    (n : Net (Poller σ ε) ε) (reached : Steps (task sampler schedule)
      (Net.start ({ sampler := s } : Poller σ ε) capacity false) n)
    (on : n.cancelled = false) :
    (∀ m, Steps (task sampler schedule) n.drop m → LeftAlone sampler schedule s n m) ∧
    ∀ run : Run (task sampler schedule) n.drop, run.Deserted →
      (n.task.phase.halts = true → ∃ i, ∀ j ≥ i, (run.state j).task.phase = .ended) ∧
      (n.task.phase.halts = false → run.Steady →
        (∃ quiet last i, (∀ x ∈ quiet, x.stirs = false) ∧ last.stirs = true ∧
          ∀ j ≥ i, (run.state j).task.phase = .ended ∧
            (run.state j).task.samples = n.task.samples ++ (quiet ++ [last])) ∨
        (∀ i, ∃ quiet, (∀ x ∈ quiet, x.stirs = false) ∧
          (run.state i).task.samples = n.task.samples ++ quiet) ∧
          ∀ k, ∃ i, k ≤ (run.state i).task.samples.length) := by
  have tracks : Tracks sampler s n.task := tracks_of_steps reached (Tracks.fresh sampler s)
  refine ⟨fun m run => leftAlone_of_steps tracks run, ?_⟩
  intro run fair
  refine ⟨fun halts => ends_of_halts fair tracks rfl halts, ?_⟩
  intro goes steady
  exact stops_or_stays_quiet fair steady tracks rfl on goes

/-- Left alone while the first sample is in flight: the second one is quiet as well, the third one
has two events, so the poller takes three samples and ends, and none of its events is queued. -/
theorem stops_at_third_sample :
    let sampler : Sampler Nat Nat :=
      .ofSequence (fun k => if k = 2 then .emit [7, 8] else .pending) fun _ => 3
    let start : Net (Poller Nat Nat) Nat := Net.start { sampler := 0 } 1 false
    let n := start.take { state := start.task.startSample sampler 0 }
    Steps (task sampler ⟨5, false⟩) start n ∧ n.task.phase = .sampling 3 ∧
      ∃ run : Run (task sampler ⟨5, false⟩) n.drop, run.Deserted ∧ run.Steady ∧
        (∀ j, (run.state j).queue = []) ∧ ∃ i, ∀ j ≥ i, (run.state j).task.phase = .ended ∧
          (run.state j).task.samples = [.pending, .pending, .emit [7, 8]] := by
  intro sampler start n
  have reached : Steps (task sampler ⟨5, false⟩) start n :=
    (Step.task start _ (List.mem_singleton.mpr rfl)).steps
  obtain ⟨safe, live⟩ := stops_at_first_stir sampler ⟨5, false⟩ 0 1 n reached rfl
  obtain ⟨run, fair, steady⟩ :
      ∃ run : Run (task sampler ⟨5, false⟩) n.drop, run.Deserted ∧ run.Steady :=
    exists_deserted n.drop
  refine ⟨reached, rfl, run, fair, steady, fun j => (safe _ (run.steps j)).queue, ?_⟩
  have yields : ∀ j, ∃ k, sampler.Yields 0 (run.state j).task.samples k := fun j =>
    (safe _ (run.steps j)).yields
  rcases (live run fair).2 rfl steady with ⟨quiet, last, i, all, stir, after⟩ | ⟨quiet, more⟩
  · refine ⟨i, fun j le => ⟨(after j le).1, ?_⟩⟩
    obtain ⟨k, given⟩ := yields j
    rw [(after j le).2] at given ⊢
    exact (Sampler.ofSequence_yields_first (k := 2) given all stir rfl (by decide)).2
  · -- the third sample stirs
    obtain ⟨i, many⟩ := more 3
    obtain ⟨seen, all, samples⟩ := quiet i
    obtain ⟨k, given⟩ := yields i
    have third : Sample.emit [7, 8] ∈ (run.state i).task.samples := by
      rw [(Sampler.ofSequence_yields given).2]
      have least : 2 < k := (Sampler.ofSequence_yields given).1 ▸ many
      exact List.mem_map.mpr ⟨2, List.mem_range.mpr least, rfl⟩
    rw [samples] at third
    cases all _ third

end Poller

end DeployWatch.Watch
