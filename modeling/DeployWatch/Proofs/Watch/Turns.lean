/-
# What a poller does in one step

The list of steps that a poller may take is opened once, here: `Poller.mem_moves_iff` says that
a step is one of seven turns, each with the phase it starts from and what it needs to see.

A sampler is asked again and again.  `Sampler.Yields` says which samples it can have given when
called in turn, at whatever times, and `Sampler.Ends` that it cannot go on for ever without a
terminal sample.  The record that a poller keeps of its cycles is such a history
(`Poller.tracks_of_steps`), and the poller never stops short (`Poller.responsive`).
-/

import DeployWatch.Proofs.Watch.Runs
import DeployWatch.Watch.Poller

namespace DeployWatch.Watch

variable {σ ε : Type}

/-! ### Samplers called in turn -/

namespace Sampler

variable (sampler : Sampler σ ε)

/-- A whole sample, asked for at one time and answered at another. -/
def call (asked answered : Nat) (s : σ) : σ × Sample ε :=
  sampler.finish answered (sampler.start asked s).1

/-- `Yields sampler s samples s'`: called in turn from `s`, the sampler can give these samples,
and then it is in `s'`. -/
inductive Yields (s : σ) : List (Sample ε) → σ → Prop
  | nil : Yields s [] s
  | snoc {samples : List (Sample ε)} {s' : σ} (before : Yields s samples s')
      (asked answered : Nat) :
      Yields s (samples ++ [(sampler.call asked answered s').2])
        (sampler.call asked answered s').1

/-- Called again and again from this state, at whatever times, the sampler gives a terminal
sample in the end. -/
inductive Ends : σ → Prop
  | intro {s : σ} (h : ∀ asked answered, (sampler.call asked answered s).2.terminal = false →
      Ends (sampler.call asked answered s).1) : Ends s

/-- The sampler that gives the samples of a sequence, each after its latency. -/
def ofSequence (samples : Nat → Sample ε) (latency : Nat → Nat) : Sampler Nat ε where
  start _ k := (k, latency k)
  finish _ k := (k + 1, samples k)

variable {samples : Nat → Sample ε} {latency : Nat → Nat}

/-- A sampler that is given as a sequence gives it in its order. -/
theorem ofSequence_yields {given : List (Sample ε)} {k : Nat}
    (h : (ofSequence samples latency).Yields 0 given k) :
    k = given.length ∧ given = (List.range k).map samples := by
  induction h with
  | nil => exact ⟨rfl, rfl⟩
  | @snoc given k _ asked answered ih =>
    obtain ⟨rfl, eq⟩ := ih
    refine ⟨by simp [call, ofSequence], ?_⟩
    simp only [call, ofSequence, List.range_succ, List.map_append, List.map_singleton]
    rw [← eq]

/-- Up to its first sample of a kind a sequence gives just the samples up to there. -/
theorem ofSequence_yields_first {kind : Sample ε → Bool} {given : List (Sample ε)}
    {last : Sample ε} {k' k : Nat}
    (h : (ofSequence samples latency).Yields 0 (given ++ [last]) k')
    (before : ∀ x ∈ given, kind x = false) (at_last : kind last = true)
    (first : kind (samples k) = true) (earlier : ∀ i < k, kind (samples i) = false) :
    given.length = k ∧ given ++ [last] = (List.range (k + 1)).map samples := by
  obtain ⟨rfl, eq⟩ := ofSequence_yields h
  rw [List.length_append, List.length_singleton] at eq
  have split : given = (List.range given.length).map samples ∧ last = samples given.length := by
    rw [List.range_succ, List.map_append, List.map_singleton] at eq
    obtain ⟨front, back⟩ := List.append_inj eq (by simp)
    exact ⟨front, List.singleton_inj.mp back⟩
  obtain ⟨front, back⟩ := split
  have length_eq : given.length = k := by
    rcases Nat.lt_trichotomy given.length k with lt | same | gt
    · rw [back, earlier _ lt] at at_last; cases at_last
    · exact same
    · have mem : samples k ∈ given := by
        rw [front]; exact List.mem_map_of_mem (List.mem_range.mpr gt)
      rw [before _ mem] at first; cases first
  exact ⟨length_eq, by rw [← length_eq]; exact eq⟩

/-- A sequence with a terminal sample ends. -/
theorem ofSequence_ends {k : Nat} (terminal : (samples k).terminal = true) {i : Nat}
    (le : i ≤ k) : (ofSequence samples latency).Ends i := by
  induction hd : k - i generalizing i with
  | zero =>
    obtain rfl : i = k := by omega
    refine .intro fun _ _ on => ?_
    rw [show (((ofSequence samples latency).call _ _ i).2) = samples i from rfl, terminal] at on
    cases on
  | succ d ih =>
    exact .intro fun _ _ _ => ih (i := i + 1) (by omega) (by omega)

end Sampler

/-- The events that a poller has still to send. -/
def Phase.held : Phase ε → List ε
  | .forwarding e rest _ => e :: rest
  | _ => []

@[simp] theorem Phase.held_fresh : (fresh : Phase ε).held = [] := rfl

@[simp] theorem Phase.held_waiting (due : Nat) : (waiting due : Phase ε).held = [] := rfl

@[simp] theorem Phase.held_sampling (due : Nat) : (sampling due : Phase ε).held = [] := rfl

@[simp] theorem Phase.held_forwarding (e : ε) (rest : List ε) (terminal : Bool) :
    (forwarding e rest terminal).held = e :: rest := rfl

@[simp] theorem Phase.held_ended : (ended : Phase ε).held = [] := rfl

/-- The poller will not take another sample. -/
def Phase.isLast : Phase ε → Bool
  | .forwarding _ _ terminal => terminal
  | .ended => true
  | _ => false

@[simp] theorem Phase.isLast_fresh : (fresh : Phase ε).isLast = false := rfl

@[simp] theorem Phase.isLast_waiting (due : Nat) : (waiting due : Phase ε).isLast = false := rfl

@[simp] theorem Phase.isLast_sampling (due : Nat) : (sampling due : Phase ε).isLast = false := rfl

@[simp] theorem Phase.isLast_forwarding (e : ε) (rest : List ε) (terminal : Bool) :
    (forwarding e rest terminal).isLast = terminal := rfl

@[simp] theorem Phase.isLast_ended : (ended : Phase ε).isLast = true := rfl

/-- How far a phase is from the end of its cycle.  An event to send counts twice, for it has
still to be received when it is sent. -/
def Phase.weight : Phase ε → Nat
  | .fresh => 3
  | .waiting _ => 2
  | .sampling _ => 1
  | .forwarding _ rest _ => 2 * rest.length + 4
  | .ended => 0

@[simp] theorem Phase.weight_fresh : (fresh : Phase ε).weight = 3 := rfl

@[simp] theorem Phase.weight_waiting (due : Nat) : (waiting due : Phase ε).weight = 2 := rfl

@[simp] theorem Phase.weight_sampling (due : Nat) : (sampling due : Phase ε).weight = 1 := rfl

@[simp] theorem Phase.weight_forwarding (e : ε) (rest : List ε) (terminal : Bool) :
    (forwarding e rest terminal).weight = 2 * rest.length + 4 := rfl

@[simp] theorem Phase.weight_ended : (ended : Phase ε).weight = 0 := rfl

namespace Poller

variable {sampler : Sampler σ ε} {schedule : Schedule} {p : Poller σ ε}

/-! ### The turns of a poller -/

/-- The poller with the answer to its sample in the record. -/
def answered (sampler : Sampler σ ε) (now : Nat) (p : Poller σ ε) : Poller σ ε :=
  { p with sampler := (sampler.finish now p.sampler).1 }.record fun c =>
    { c with sample := some (sampler.finish now p.sampler).2 }

/-- The poller going on to the events of its sample. -/
def proceeding (sampler : Sampler σ ε) (schedule : Schedule) (now : Nat) (p : Poller σ ε) :
    Poller σ ε :=
  (p.answered sampler now).forward schedule now (sampler.finish now p.sampler).2.events
    (sampler.finish now p.sampler).2.terminal

/-- The steps of a poller, each with what it needs. -/
inductive Turn (sampler : Sampler σ ε) (schedule : Schedule) (v : View) (p : Poller σ ε) :
    Move (Poller σ ε) ε → Prop
  /-- It waits before the first sample. -/
  | rest (phase : p.phase = .fresh) (delay : schedule.delayFirst = true) :
      Turn sampler schedule v p
        { state := { p with phase := .waiting (v.now + schedule.interval) } }
  /-- It starts a sample. -/
  | look (ready : p.phase = .fresh ∧ schedule.delayFirst = false ∨
      ∃ due, p.phase = .waiting due ∧ due ≤ v.now) :
      Turn sampler schedule v p { state := p.startSample sampler v.now }
  /-- It is cancelled while it waits. -/
  | quit (due : Nat) (phase : p.phase = .waiting due) (off : v.cancelled = true) :
      Turn sampler schedule v p { state := p.stop }
  /-- Its sample comes too late. -/
  | discard (due : Nat) (phase : p.phase = .sampling due) (expired : due ≤ v.now)
      (off : v.cancelled = true) :
      Turn sampler schedule v p { state := (p.answered sampler v.now).stop }
  /-- It goes on to the events of its sample. -/
  | keep (due : Nat) (phase : p.phase = .sampling due) (expired : due ≤ v.now)
      (on : v.cancelled = false) :
      Turn sampler schedule v p { state := p.proceeding sampler schedule v.now }
  /-- It sends an event. -/
  | send (e : ε) (rest : List ε) (terminal : Bool) (phase : p.phase = .forwarding e rest terminal)
      (here : v.gone = false) (room : v.room = true) :
      Turn sampler schedule v p
        { state := p.forward schedule v.now rest terminal, event := some e }
  /-- It gives up the events that are left. -/
  | giveUp (e : ε) (rest : List ε) (terminal : Bool)
      (phase : p.phase = .forwarding e rest terminal) (off : v.gone = true ∨ v.cancelled = true) :
      Turn sampler schedule v p { state := p.stop }

/-- The steps that a poller may take are its turns. -/
theorem mem_moves_iff {v : View} {move : Move (Poller σ ε) ε} :
    move ∈ moves sampler schedule v p ↔ Turn sampler schedule v p move := by
  constructor
  · intro h
    unfold moves at h
    split at h
    · next phase =>
      split at h
      · next delay =>
        obtain rfl := List.mem_singleton.mp h
        exact .rest phase delay
      · next delay =>
        obtain rfl := List.mem_singleton.mp h
        exact .look (.inl ⟨phase, by simpa using delay⟩)
    · next due phase =>
      rcases List.mem_append.mp h with h | h
      · split at h
        · next off =>
          obtain rfl := List.mem_singleton.mp h
          exact .quit due phase off
        · cases h
      · split at h
        · next expired =>
          obtain rfl := List.mem_singleton.mp h
          exact .look (.inr ⟨due, phase, expired⟩)
        · cases h
    · next due phase =>
      split at h
      · next expired =>
        simp only at h
        split at h
        · next off =>
          obtain rfl := List.mem_singleton.mp h
          exact .discard due phase expired off
        · next on =>
          obtain rfl := List.mem_singleton.mp h
          exact .keep due phase expired (by simpa using on)
      · cases h
    · next e rest terminal phase =>
      split at h
      · next gone =>
        obtain rfl := List.mem_singleton.mp h
        exact .giveUp e rest terminal phase (.inl gone)
      · next here =>
        rcases List.mem_append.mp h with h | h
        · split at h
          · next room =>
            obtain rfl := List.mem_singleton.mp h
            exact .send e rest terminal phase (by simpa using here) room
          · cases h
        · split at h
          · next off =>
            obtain rfl := List.mem_singleton.mp h
            exact .giveUp e rest terminal phase (.inr off)
          · cases h
    · cases h
  · intro turn
    cases turn with
    | rest phase delay => simp [moves, phase, delay]
    | look ready =>
      rcases ready with ⟨phase, delay⟩ | ⟨due, phase, expired⟩
      · simp [moves, phase, delay]
      · simp [moves, phase, expired]
    | quit due phase off => simp [moves, phase, off]
    | discard due phase expired off => simp [moves, phase, expired, off, answered]
    | keep due phase expired on => simp [moves, phase, expired, on, answered, proceeding]
    | send e rest terminal phase here room => simp [moves, phase, here, room]
    | giveUp e rest terminal phase off =>
      rcases off with gone | off
      · simp [moves, phase, gone]
      · by_cases gone : v.gone = true
        · simp [moves, phase, gone]
        · simp [moves, phase, gone, off]

/-- A turn of a poller with a sample in flight ends the sample. -/
theorem Turn.of_sampling {v : View} {move : Move (Poller σ ε) ε}
    (turn : Turn sampler schedule v p move) {due : Nat} (phase : p.phase = .sampling due) :
    v.cancelled = true ∧ move = { state := (p.answered sampler v.now).stop } ∨
      v.cancelled = false ∧ move = { state := p.proceeding sampler schedule v.now } := by
  cases turn with
  | discard _ _ _ off => exact .inl ⟨off, rfl⟩
  | keep _ _ _ on => exact .inr ⟨on, rfl⟩
  | rest other | quit _ other | send _ _ _ other | giveUp _ _ _ other =>
    rw [phase] at other
    cases other
  | look ready =>
    rcases ready with ⟨other, -⟩ | ⟨_, other, -⟩ <;> (rw [phase] at other; cases other)

/-- A poller with an event to send sends it or gives up. -/
theorem Turn.of_forwarding {v : View} {move : Move (Poller σ ε) ε}
    (turn : Turn sampler schedule v p move) {e : ε} {rest : List ε} {terminal : Bool}
    (phase : p.phase = .forwarding e rest terminal) :
    v.gone = false ∧
        move = { state := p.forward schedule v.now rest terminal, event := some e } ∨
      (v.gone = true ∨ v.cancelled = true) ∧ move = { state := p.stop } := by
  cases turn with
  | send _ _ _ same here =>
    rw [phase] at same
    cases same
    exact .inl ⟨here, rfl⟩
  | giveUp _ _ _ _ off => exact .inr ⟨off, rfl⟩
  | rest other | quit _ other | discard _ other | keep _ other =>
    rw [phase] at other
    cases other
  | look ready =>
    rcases ready with ⟨other, -⟩ | ⟨_, other, -⟩ <;> (rw [phase] at other; cases other)

/-- A poller that has ended has no turn. -/
theorem Turn.phase_ne_ended {v : View} {move : Move (Poller σ ε) ε}
    (turn : Turn sampler schedule v p move) : p.phase ≠ .ended := by
  intro ended
  rw [← mem_moves_iff] at turn
  simp [moves, ended] at turn

/-- A poller that has a turn can take a step. -/
theorem moves_ne_nil {n : Net (Poller σ ε) ε} {move : Move (Poller σ ε) ε}
    (turn : Turn sampler schedule n.view n.task move) : n.moves (task sampler schedule) ≠ [] := by
  intro idle
  have able : move ∈ n.moves (task sampler schedule) := mem_moves_iff.mpr turn
  rw [idle] at able
  cases able

/-- A poller that has not run yet can take a step. -/
theorem moves_ne_nil_of_fresh {n : Net (Poller σ ε) ε} (phase : n.task.phase = .fresh) :
    n.moves (task sampler schedule) ≠ [] := by
  cases delay : schedule.delayFirst with
  | true => exact moves_ne_nil (.rest phase delay)
  | false => exact moves_ne_nil (.look (.inl ⟨phase, delay⟩))

/-! ### What the turns do to the record -/

/-- The answers in the record, the newest first; a sample in flight has none. -/
def answers (p : Poller σ ε) : List (Option (Sample ε)) := p.cycles.map Cycle.sample

/-- The events of all samples so far, in their order. -/
def emitted (p : Poller σ ε) : List ε := p.samples.flatMap Sample.events

@[simp] theorem stop_phase : p.stop.phase = .ended := rfl

@[simp] theorem stop_cycles : p.stop.cycles = p.cycles := rfl

@[simp] theorem startSample_phase (now : Nat) : (p.startSample sampler now).phase =
    .sampling (now + (sampler.start now p.sampler).2) := rfl

@[simp] theorem startSample_sampler (now : Nat) :
    (p.startSample sampler now).sampler = (sampler.start now p.sampler).1 := rfl

@[simp] theorem startSample_cycles (now : Nat) :
    (p.startSample sampler now).cycles = ⟨now, none, none⟩ :: p.cycles := rfl

@[simp] theorem record_sampler (change : Cycle ε → Cycle ε) :
    (p.record change).sampler = p.sampler := by
  unfold record; split <;> rfl

@[simp] theorem record_phase (change : Cycle ε → Cycle ε) :
    (p.record change).phase = p.phase := by
  unfold record; split <;> rfl

@[simp] theorem record_cycles (change : Cycle ε → Cycle ε) :
    (p.record change).cycles = p.cycles.modifyHead change := by
  unfold record
  split
  · next c rest h => simp [h]
  · next h => simp [h]

@[simp] theorem answered_sampler (now : Nat) :
    (p.answered sampler now).sampler = (sampler.finish now p.sampler).1 := by
  simp [answered]

@[simp] theorem forward_sampler (now : Nat) (events : List ε) (terminal : Bool) :
    (p.forward schedule now events terminal).sampler = p.sampler := by
  cases events <;> simp [forward]

@[simp] theorem startSample_answers (now : Nat) :
    (p.startSample sampler now).answers = none :: p.answers := rfl

/-- Going on to the events that are left does not touch the answers in the record. -/
@[simp] theorem forward_answers (now : Nat) (events : List ε) (terminal : Bool) :
    (p.forward schedule now events terminal).answers = p.answers := by
  cases events with
  | cons => rfl
  | nil => cases h : p.cycles <;> simp [forward, answers, h]

/-- Every sample that was started has its place in the record. -/
theorem length_startTimes (p : Poller σ ε) : p.startTimes.length = p.answers.length := by
  simp [startTimes, answers]

/-- The samples are read off the answers in the record. -/
theorem samples_eq (p : Poller σ ε) : p.samples = (p.answers.filterMap id).reverse := by
  simp [samples, answers, List.filterMap_map]

/-- A new phase does not touch the samples in the record. -/
@[simp] theorem samples_withPhase (p : Poller σ ε) (phase : Phase ε) :
    ({ p with phase } : Poller σ ε).samples = p.samples := rfl

@[simp] theorem startSample_samples (now : Nat) :
    (p.startSample sampler now).samples = p.samples := by
  simp [samples_eq]

@[simp] theorem forward_samples (now : Nat) (events : List ε) (terminal : Bool) :
    (p.forward schedule now events terminal).samples = p.samples := by
  simp [samples_eq]

@[simp] theorem stop_emitted : p.stop.emitted = p.emitted := rfl

@[simp] theorem startSample_emitted (now : Nat) :
    (p.startSample sampler now).emitted = p.emitted := by
  simp [emitted]

@[simp] theorem forward_emitted (now : Nat) (events : List ε) (terminal : Bool) :
    (p.forward schedule now events terminal).emitted = p.emitted := by
  simp [emitted]

/-- What a poller holds after going on is what was left. -/
@[simp] theorem forward_held (now : Nat) (events : List ε) (terminal : Bool) :
    (p.forward schedule now events terminal).phase.held = events := by
  cases events with
  | cons => rfl
  | nil => cases terminal <;> simp [forward]

theorem forward_weight_le (now : Nat) (events : List ε) (terminal : Bool) :
    (p.forward schedule now events terminal).phase.weight ≤ 2 * events.length + 2 := by
  cases events with
  | cons => simp [forward]; omega
  | nil => cases terminal <;> simp [forward]

@[simp] theorem forward_isLast (now : Nat) (events : List ε) (terminal : Bool) :
    (p.forward schedule now events terminal).phase.isLast = terminal := by
  cases events with
  | cons => rfl
  | nil => cases terminal <;> simp [forward]

/-- Going on never leads into a sample. -/
theorem forward_phase_ne_sampling (now : Nat) (events : List ε) (terminal : Bool) (due : Nat) :
    (p.forward schedule now events terminal).phase ≠ .sampling due := by
  cases events with
  | cons => simp [forward]
  | nil => cases terminal <;> simp [forward]

/-- Going on never leads back to the beginning. -/
theorem forward_phase_ne_fresh (now : Nat) (events : List ε) (terminal : Bool) :
    (p.forward schedule now events terminal).phase ≠ .fresh := by
  cases events with
  | cons => simp [forward]
  | nil => cases terminal <;> simp [forward]

/-! ### The record is a history of the sampler -/

/-- The record of a poller that began with a sampler in `s`: its samples are what the sampler
gave when called in turn, and only a sample in flight has no answer yet. -/
inductive Tracks (sampler : Sampler σ ε) (s : σ) (p : Poller σ ε) : Prop
  /-- A sample is in flight. -/
  | inFlight (samples : List (Sample ε)) (due asked : Nat) (s' : σ)
      (phase : p.phase = .sampling due) (yields : sampler.Yields s samples s')
      (started : p.sampler = (sampler.start asked s').1)
      (answers : p.answers = none :: samples.reverse.map some)
  /-- All samples have been answered. -/
  | between (samples : List (Sample ε)) (phase : ∀ due, p.phase ≠ .sampling due)
      (yields : sampler.Yields s samples p.sampler)
      (answers : p.answers = samples.reverse.map some)

namespace Tracks

variable {s : σ}

theorem fresh (sampler : Sampler σ ε) (s : σ) : Tracks sampler s { sampler := s } :=
  .between [] (by simp) .nil rfl

/-- Where all samples are answered, the sampler was called once for each. -/
theorem of_between (tracks : Tracks sampler s p) (phase : ∀ due, p.phase ≠ .sampling due) :
    sampler.Yields s p.samples p.sampler ∧
      p.answers = p.samples.reverse.map some := by
  cases tracks with
  | inFlight _ due _ _ h => exact absurd h (phase due)
  | between samples _ yields answers =>
    obtain rfl : p.samples = samples := by simp [samples_eq, answers]
    exact ⟨yields, answers⟩

/-- Where a sample is in flight, the sampler was called once more. -/
theorem of_sampling (tracks : Tracks sampler s p) {due : Nat} (phase : p.phase = .sampling due) :
    ∃ asked s', sampler.Yields s p.samples s' ∧ p.sampler = (sampler.start asked s').1 ∧
      p.answers = none :: p.samples.reverse.map some := by
  cases tracks with
  | inFlight samples _ asked s' _ yields started answers =>
    obtain rfl : p.samples = samples := by simp [samples_eq, answers]
    exact ⟨asked, s', yields, started, answers⟩
  | between _ none => exact absurd phase (none due)

/-- The samples of the record are what the sampler can give when called in turn. -/
theorem yields (tracks : Tracks sampler s p) : ∃ s', sampler.Yields s p.samples s' := by
  by_cases h : ∃ due, p.phase = .sampling due
  · obtain ⟨due, phase⟩ := h
    obtain ⟨_, s', yields, -⟩ := tracks.of_sampling phase
    exact ⟨s', yields⟩
  · exact ⟨_, (tracks.of_between fun due phase => h ⟨due, phase⟩).1⟩

/-- The answer to a sample in flight takes its place in the record. -/
theorem answered_answers (now : Nat) {before : List (Option (Sample ε))}
    (h : p.answers = none :: before) :
    (p.answered sampler now).answers = some (sampler.finish now p.sampler).2 :: before := by
  unfold answers at h
  cases hc : p.cycles with
  | nil => simp [hc] at h
  | cons c rest =>
    simp only [hc, List.map_cons, List.cons.injEq] at h
    simp [answered, answers, hc, h.2]

/-- The answer to a sample in flight becomes the last sample. -/
theorem answered_samples (tracks : Tracks sampler s p) {due : Nat}
    (phase : p.phase = .sampling due) (now : Nat) :
    (p.answered sampler now).samples = p.samples ++ [(sampler.finish now p.sampler).2] := by
  obtain ⟨_, _, -, -, answers⟩ := tracks.of_sampling phase
  simp [samples_eq, answered_answers now answers]

/-- The events of an answered sample come after those before it. -/
theorem answered_emitted (tracks : Tracks sampler s p) {due : Nat}
    (phase : p.phase = .sampling due) (now : Nat) :
    (p.answered sampler now).emitted = p.emitted ++ (sampler.finish now p.sampler).2.events := by
  simp [emitted, tracks.answered_samples phase]

theorem answered_yields (tracks : Tracks sampler s p) {due : Nat}
    (phase : p.phase = .sampling due) (now : Nat) :
    sampler.Yields s (p.answered sampler now).samples (p.answered sampler now).sampler ∧
      (p.answered sampler now).answers =
        (p.answered sampler now).samples.reverse.map some := by
  obtain ⟨asked, s', yields, started, answers⟩ := tracks.of_sampling phase
  rw [tracks.answered_samples phase, answered_sampler, started]
  refine ⟨yields.snoc asked now, ?_⟩
  rw [answered_answers now answers, started]
  simp

/-- A turn keeps the record a history of the sampler. -/
theorem turn (tracks : Tracks sampler s p) {v : View} {move : Move (Poller σ ε) ε}
    (turn : Turn sampler schedule v p move) : Tracks sampler s move.state := by
  cases turn with
  | rest phase delay =>
    obtain ⟨yields, answers⟩ := tracks.of_between (by simp [phase])
    exact .between p.samples (by simp) yields answers
  | look ready =>
    have phase : ∀ due, p.phase ≠ .sampling due := by
      rcases ready with ⟨phase, -⟩ | ⟨_, phase, -⟩ <;> simp [phase]
    obtain ⟨yields, answers⟩ := tracks.of_between phase
    exact .inFlight p.samples _ v.now p.sampler rfl yields rfl (by simp [answers])
  | quit due phase off =>
    obtain ⟨yields, answers⟩ := tracks.of_between (by simp [phase])
    exact .between p.samples (by simp) yields answers
  | discard due phase expired off =>
    obtain ⟨yields, answers⟩ := tracks.answered_yields phase v.now
    exact .between _ (by simp) yields answers
  | keep due phase expired on =>
    obtain ⟨yields, answers⟩ := tracks.answered_yields phase v.now
    refine .between (p.answered sampler v.now).samples (forward_phase_ne_sampling _ _ _) ?_ ?_
    · simpa [proceeding] using yields
    · simpa [proceeding] using answers
  | send e rest terminal phase here room =>
    obtain ⟨yields, answers⟩ := tracks.of_between (by simp [phase])
    exact .between p.samples (forward_phase_ne_sampling _ _ _) (by simpa using yields)
      (by simpa using answers)
  | giveUp e rest terminal phase off =>
    obtain ⟨yields, answers⟩ := tracks.of_between (by simp [phase])
    exact .between p.samples (by simp) yields answers

end Tracks

/-- In every state of a run the record is a history of the sampler. -/
theorem tracks_of_steps {s : σ} {n m : Net (Poller σ ε) ε}
    (run : Net.Steps (task sampler schedule) n m) (h : Tracks sampler s n.task) :
    Tracks sampler s m.task :=
  run.keeps_task (fun _ _ _ turn tracks => tracks.turn (mem_moves_iff.mp turn)) h

/-- Where the queue reads closed, it is empty and the poller has ended. -/
theorem queue_and_phase_of_isClosed {n : Net (Poller σ ε) ε}
    (closed : n.isClosed (task sampler schedule) = true) :
    n.queue = [] ∧ n.task.phase = .ended := by
  simp only [Net.isClosed, Bool.and_eq_true, List.isEmpty_iff] at closed
  refine ⟨closed.1, ?_⟩
  have ended : n.task.hasEnded = true := closed.2
  unfold hasEnded at ended
  split at ended
  · assumption
  · cases ended

/-! ### A poller never stops short -/

theorem responsive (sampler : Sampler σ ε) (schedule : Schedule) :
    Net.Responsive (task sampler schedule) where
  steps n here empty room alive := by
    cases phase : n.task.phase with
    | fresh =>
      refine ⟨n.now, .inl le_rfl, ?_⟩
      rintro m ⟨now, -, rfl⟩ -
      exact moves_ne_nil_of_fresh phase
    | waiting due =>
      refine ⟨due, .inr (by simp [task, timer?, phase]), ?_⟩
      rintro m ⟨now, -, rfl⟩ expired
      exact moves_ne_nil (.look (.inr ⟨due, phase, expired⟩))
    | sampling due =>
      refine ⟨due, .inr (by simp [task, timer?, phase]), ?_⟩
      rintro m ⟨now, -, rfl⟩ expired
      cases off : n.cancelled with
      | true => exact moves_ne_nil (.discard due phase expired off)
      | false => exact moves_ne_nil (.keep due phase expired off)
    | forwarding e rest terminal =>
      refine ⟨n.now, .inl le_rfl, ?_⟩
      rintro m ⟨now, -, rfl⟩ -
      refine moves_ne_nil (.send e rest terminal phase here ?_)
      simpa [Net.view, Net.advance, empty] using room
    | ended => simp [task, hasEnded, phase] at alive
  rests n ended := by
    cases phase : n.task.phase with
    | ended => simp [Net.moves, task, moves, phase]
    | fresh | waiting | sampling | forwarding => simp [task, hasEnded, phase] at ended

/-- A poller whose timer has not expired can only give up waiting. -/
theorem patient (m : Net (Poller σ ε) ε) (due : Nat)
    (timer : (task sampler schedule).timer? m.task = some due) (early : m.now < due)
    (move : Move (Poller σ ε) ε) (hm : move ∈ m.moves (task sampler schedule)) :
    (task sampler schedule).timer? move.state ≠ some due := by
  have timer : m.task.timer? = some due := timer
  have contra : ∀ due', m.task.phase = .waiting due' ∨ m.task.phase = .sampling due' →
      ¬ due' ≤ m.view.now := by
    rintro due' phase past
    have eq : due' = due := by
      rcases phase with phase | phase <;> simpa [timer?, phase] using timer
    exact absurd (eq ▸ past) (Nat.not_le.mpr early)
  cases mem_moves_iff.mp hm with
  | rest phase => simp [timer?, phase] at timer
  | look ready =>
    rcases ready with ⟨phase, -⟩ | ⟨due', phase, expired⟩
    · simp [timer?, phase] at timer
    · exact absurd expired (contra due' (.inl phase))
  | quit | giveUp => simp [task, timer?]
  | discard due' phase expired | keep due' phase expired =>
    exact absurd expired (contra due' (.inr phase))
  | send e rest terminal phase => simp [timer?, phase] at timer

/-- Every watch with a poller that its consumer has not left has a draining run. -/
theorem exists_draining (n : Net (Poller σ ε) ε) (here : n.gone = false) :
    ∃ run : Net.Run (task sampler schedule) n, run.Draining ∧ run.Steady :=
  ⟨.eager _ here, Net.Run.eager_draining here patient, Net.Run.eager_steady here⟩

end Poller

end DeployWatch.Watch
