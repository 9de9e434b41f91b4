/-
# What a deployment run does in one step

The steps that a run may take are opened once, here: `DeployRun.mem_moves_iff` says that a step is
one of eight turns, each with the phase it starts from and what it needs to see.  Every turn lowers
the load of a run (`DeployRun.Fit.turn`), so a run never goes on for ever (`DeployRun.acc`), and it
never stops short (`DeployRun.responsive`).
-/

import DeployWatch.Proofs.Deploy.Reading
import DeployWatch.Proofs.Watch.Runs

namespace DeployWatch

open DeployWatch.Watch Net

namespace DeployRun

variable {v : View} {r : DeployRun} {move : Move DeployRun ProgressEvent}

/-! ### The turns of a run -/

/-- The steps of a run, each with what it needs. -/
inductive Turn (v : View) (r : DeployRun) : Move DeployRun ProgressEvent → Prop
  /-- It looks at the pipes. -/
  | look (ready : r.phase = .reading ∨ ∃ due, r.phase = .idle due ∧ due ≤ v.now) :
      Turn v r { state := r.read v.now }
  /-- It sends the event of a line. -/
  | send (line : String) (phase : r.phase = .sending line) (here : v.gone = false)
      (room : v.room = true) :
      Turn v r { state := { r with phase := .reading }, event := some (.ofLine line) }
  /-- Nobody listens to a line. -/
  | leave (line : String) (phase : r.phase = .sending line) (gone : v.gone = true) :
      Turn v r { state := r.awaitExit v.now none true }
  /-- The tool has exited. -/
  | exit (due : Nat) (lost : Option DeployFault) (phase : r.phase = .exiting due lost false)
      (expired : due ≤ v.now) :
      Turn v r { state := { r.exits with phase := .reporting (.finished (r.outcome lost)) } }
  /-- The tool has exited, and nobody listened any more. -/
  | exitUnheard (due : Nat) (lost : Option DeployFault) (phase : r.phase = .exiting due lost true)
      (expired : due ≤ v.now) : Turn v r { state := { r.exits with phase := .cleaning } }
  /-- It sends the last event. -/
  | report (event : ProgressEvent) (phase : r.phase = .reporting event) (here : v.gone = false)
      (room : v.room = true) :
      Turn v r { state := { r with phase := .cleaning }, event := some event }
  /-- Nobody listens to the last event. -/
  | skip (event : ProgressEvent) (phase : r.phase = .reporting event) (gone : v.gone = true) :
      Turn v r { state := { r with phase := .cleaning } }
  /-- It removes the scratch directory. -/
  | clean (phase : r.phase = .cleaning) : Turn v r { state := r.clean }

/-- A step that a run may take is one of its turns. -/
theorem turn_of_mem (h : move ∈ moves v r) : Turn v r move := by
  cases phase : r.phase with
  | reading =>
    obtain rfl : move = { state := r.read v.now } := by simpa [moves, phase] using h
    exact .look (.inl phase)
  | idle due =>
    obtain ⟨expired, rfl⟩ : due ≤ v.now ∧ move = { state := r.read v.now } := by
      simpa [moves, phase] using h
    exact .look (.inr ⟨due, phase, expired⟩)
  | sending line =>
    by_cases gone : v.gone = true
    · obtain rfl : move = { state := r.awaitExit v.now none true } := by
        simpa [moves, phase, gone] using h
      exact .leave line phase gone
    · have here : v.gone = false := by simpa using gone
      obtain ⟨room, rfl⟩ : v.room = true ∧
          move = { state := { r with phase := .reading }, event := some (.ofLine line) } := by
        simpa [moves, phase, here] using h
      exact .send line phase here room
  | exiting due lost unheard =>
    cases unheard with
    | true =>
      obtain ⟨expired, rfl⟩ : due ≤ v.now ∧
          move = { state := { r.exits with phase := .cleaning } } := by
        simpa [moves, phase] using h
      exact .exitUnheard due lost phase expired
    | false =>
      obtain ⟨expired, rfl⟩ : due ≤ v.now ∧
          move = { state := { r.exits with phase := .reporting (.finished (r.outcome lost)) } } := by
        simpa [moves, phase] using h
      exact .exit due lost phase expired
  | reporting event =>
    by_cases gone : v.gone = true
    · obtain rfl : move = { state := { r with phase := .cleaning } } := by
        simpa [moves, phase, gone] using h
      exact .skip event phase gone
    · have here : v.gone = false := by simpa using gone
      obtain ⟨room, rfl⟩ : v.room = true ∧
          move = { state := { r with phase := .cleaning }, event := some event } := by
        simpa [moves, phase, here] using h
      exact .report event phase here room
  | cleaning =>
    obtain rfl : move = { state := r.clean } := by simpa [moves, phase] using h
    exact .clean phase
  | ended => simp [moves, phase] at h

/-- The steps that a run may take are its turns. -/
theorem mem_moves_iff : move ∈ moves v r ↔ Turn v r move := by
  refine ⟨turn_of_mem, ?_⟩
  intro turn
  cases turn with
  | look ready =>
    rcases ready with phase | ⟨due, phase, expired⟩
    · simp [moves, phase]
    · simp [moves, phase, expired]
  | send line phase here room => simp [moves, phase, here, room]
  | leave line phase gone => simp [moves, phase, gone]
  | exit due lost phase expired => simp [moves, phase, expired]
  | exitUnheard due lost phase expired => simp [moves, phase, expired]
  | report event phase here room => simp [moves, phase, here, room]
  | skip event phase gone => simp [moves, phase, gone]
  | clean phase => simp [moves, phase]

/-- A step of a watch on a run is a turn or leaves the run as it is. -/
theorem turn_of_step {a b : Net DeployRun ProgressEvent} (step : Step task a b) :
    b.task = a.task ∨ ∃ move, Turn a.view a.task move ∧ b = a.take move := by
  rcases step.task_eq_or_take with same | ⟨move, hm, rfl⟩
  · exact .inl same
  · exact .inr ⟨move, mem_moves_iff.mp hm, rfl⟩

/-! ### What a look changes -/

section Read

variable (now : Nat) (r : DeployRun)

/-- A look takes the pipes on and decides what the run is about to do. -/
theorem read_eq : r.read now =
    { r with
      merge := (r.merge.poll now).1
      phase := match (r.merge.poll now).2 with
        | .line text => .sending text
        | .fault f => .exiting (now + r.exitPause) (some (.output f.message)) false
        | .ended => .exiting (now + r.exitPause) none false
        | .pending => .idle ((r.merge.poll now).1.wake?.getD now) } := by
  unfold read
  generalize r.merge.poll now = x
  obtain ⟨merge, state⟩ := x
  cases state <;> rfl

@[simp] theorem read_merge : (r.read now).merge = (r.merge.poll now).1 := by rw [read_eq]

@[simp] theorem read_exit : (r.read now).exit = r.exit := by rw [read_eq]

@[simp] theorem read_exited : (r.read now).exited = r.exited := by rw [read_eq]

@[simp] theorem read_files : (r.read now).files = r.files := by rw [read_eq]

/-- The phase that a look at the pipes leads to. -/
theorem read_phase : (r.read now).phase = match (r.merge.poll now).2 with
    | .line text => .sending text
    | .fault f => .exiting (now + r.exitPause) (some (.output f.message)) false
    | .ended => .exiting (now + r.exitPause) none false
    | .pending => .idle ((r.merge.poll now).1.wake?.getD now) := by rw [read_eq]

end Read

/-! ### A run comes to its end -/

/-- A run that waits for the pipes waits for the end of one of their pauses. -/
structure Fit (r : DeployRun) : Prop where
  sound : r.merge.Sound
  waits : ∀ due, r.phase = .idle due → r.merge.wake? = some due

theorem fit_ofProcess (p : ProcessRun) (files : FileTree) (current : Location)
    (scratch : Option Path) : (ofProcess p files current scratch).Fit where
  sound := by rintro (_ | _) ⟨⟩
  waits := by rintro due ⟨⟩

/-- A look at the pipes lowers the load. -/
theorem Fit.read (fit : r.Fit) {now : Nat}
    (ready : r.phase = .reading ∨ ∃ due, r.phase = .idle due ∧ due ≤ now) :
    (r.read now).Fit ∧ (r.read now).load < r.load := by
  obtain ⟨sound, look⟩ := Merge.look now fit.sound
  have heavy : 5 ≤ r.phase.weight := by
    rcases ready with phase | ⟨due, phase, -⟩ <;> simp [phase, RunPhase.weight]
  have phase := read_phase now r
  unfold load
  rw [read_merge]
  cases look with
  | item x given side came other lighter =>
    -- an item that leads to a line to send makes up for the heavier phase
    have light : (r.read now).phase.weight ≤ 8 := by
      rw [phase]
      cases h : (r.merge.poll now).2 <;> simp [RunPhase.weight]
    refine ⟨⟨by rw [read_merge]; exact sound, fun due idle => ?_⟩, by omega⟩
    rw [phase] at idle
    cases h : (r.merge.poll now).2 <;> simp [h, PipeState.item?] at idle given
  | pending given quiet asleep =>
    obtain ⟨side, due, asleep⟩ := asleep
    obtain ⟨due', wake⟩ := Merge.wake?_of_asleep asleep
    obtain ⟨le, lt⟩ := Merge.weight_of_quiet quiet
    rw [given] at phase
    refine ⟨⟨by rw [read_merge]; exact sound, fun due idle => ?_⟩, ?_⟩
    · rw [phase, wake] at idle
      rw [read_merge, wake, ← RunPhase.idle.inj idle]
      rfl
    · rw [phase]
      rcases ready with before | ⟨due, before, expired⟩
      · simp only [before, RunPhase.weight]
        omega
      · have := lt due expired (fit.waits due before)
        simp only [before, RunPhase.weight]
        omega
  | ended given exhausted rest =>
    rw [given] at phase
    refine ⟨⟨by rw [read_merge]; exact sound, fun due idle => ?_⟩, ?_⟩
    · rw [phase] at idle
      cases idle
    · have gone : (r.merge.poll now).1.weight = 0 := by
        rw [Merge.weight_eq _ false, rest, rest]
        rfl
      have light : (r.read now).phase.weight = 4 := by rw [phase]; rfl
      omega

/-- Every turn lowers the load by more than it queues. -/
theorem Fit.turn (fit : r.Fit) (turn : Turn v r move) :
    move.state.Fit ∧ move.state.load + move.event.toList.length < r.load := by
  cases turn with
  | look ready => exact fit.read ready
  | send line phase | leave line phase | exit due lost phase | exitUnheard due lost phase
  | report event phase | skip event phase | clean phase =>
    exact ⟨⟨fit.sound, by rintro due ⟨⟩⟩, by simp [load, phase, awaitExit, clean, RunPhase.weight]⟩

/-- A run stays fit. -/
theorem fit_of_steps {a b : Net DeployRun ProgressEvent} (run : Steps task a b)
    (fit : a.task.Fit) : b.task.Fit :=
  run.keeps_task (fun _ _ _ hm fit => (Fit.turn fit (mem_moves_iff.mp hm)).1) fit

/-- A run and its consumer do not go on for ever. -/
theorem acc {n : Net DeployRun ProgressEvent} (fit : n.task.Fit) : Acc (Ahead task) n := by
  refine acc_of_measure (P := fun n => n.task.Fit) (fun n => n.task.load + n.queue.length) ?_ fit
  rintro n m fit ⟨_, ⟨now, -, rfl⟩, ⟨move, hm, rfl⟩ | ⟨e, received⟩⟩
  · obtain ⟨fit', less⟩ := Fit.turn fit (mem_moves_iff.mp hm)
    refine ⟨fit', ?_⟩
    simp only [take, advance, List.length_append]
    omega
  · obtain ⟨rest, hq, rfl⟩ := receive?_eq_some received
    have hq : n.queue = e :: rest := hq
    exact ⟨fit, by simp [hq, advance]⟩

/-- A run that has not ended can take a step, unless it waits for a timer or for room in the
queue. -/
theorem moves_ne_nil {n : Net DeployRun ProgressEvent} (alive : n.task.phase ≠ .ended)
    (able : n.gone = true ∨ n.view.room = true)
    (expired : ∀ due, task.timer? n.task = some due → due ≤ n.now) : n.moves task ≠ [] := by
  have gone : n.view.gone = n.gone := rfl
  have now : n.view.now = n.now := rfl
  simp only [task, timer?] at expired
  simp only [Net.moves, task, moves]
  cases phase : n.task.phase with
  | reading | cleaning => exact List.cons_ne_nil _ _
  | idle due =>
    have past : due ≤ n.view.now := expired due (by rw [phase])
    simp [past]
  | exiting due lost unheard =>
    have past : due ≤ n.view.now := expired due (by rw [phase])
    cases unheard <;> simp [past]
  | sending line | reporting event =>
    rw [gone]
    by_cases left : n.gone = true
    · simp [left]
    · have room : n.view.room = true := by
        apply able.resolve_left
        exact left
      simp [left, room]
  | ended => exact absurd phase alive

/-- A run does not stop short. -/
theorem responsive : Responsive task where
  steps n here empty capacity alive := by
    have alive : n.task.phase ≠ .ended := by simpa [task] using alive
    -- what the task sees later differs in the time alone
    have able : ∀ m, Later n m → (∀ due, task.timer? n.task = some due → due ≤ m.now) →
        m.moves task ≠ [] := by
      rintro m ⟨now, -, rfl⟩ expired
      exact moves_ne_nil alive (.inr (by simp [view, advance, empty, capacity])) expired
    cases timer : task.timer? n.task with
    | some due =>
      refine ⟨due, .inr rfl, fun m later expired => able m later ?_⟩
      intro due' timer'
      rw [timer, Option.some.injEq] at timer'
      exact timer' ▸ expired
    | none =>
      refine ⟨n.now, .inl le_rfl, fun m later _ => able m later ?_⟩
      intro due timer'
      rw [timer] at timer'
      cases timer'
  rests n ended := by
    have phase : n.task.phase = .ended := by simpa [task] using ended
    simp [Net.moves, task, moves, phase]

/-- **A run ends even if its consumer has left.** -/
theorem exists_ended {n : Net DeployRun ProgressEvent} {run : Run task n} (fair : run.Deserted)
    (fit : n.task.Fit) : ∃ j, (run.state j).task.phase = .ended := by
  have fits : ∀ i, (run.state i).task.Fit := fun i => fit_of_steps (run.steps i) fit
  obtain ⟨i, gone⟩ := fair.left
  induction hl : (run.state i).task.load using Nat.strong_induction_on generalizing i with
  | _ load ih =>
    by_cases ended : (run.state i).task.phase = .ended
    · exact ⟨i, ended⟩
    · obtain ⟨j, le, same, move, hm, next⟩ := fair.exists_works gone fun m task_eq gone expired =>
        moves_ne_nil (by rw [task_eq]; exact ended) (.inl gone) expired
      have less := ((fits j).turn (mem_moves_iff.mp hm)).2
      refine ih (run.state (j + 1)).task.load ?_ (j + 1) (Run.gone_from (by omega) gone) rfl
      rw [next, ← hl, ← same]
      exact lt_of_le_of_lt (Nat.le_add_right _ _) less

/-- A run that waits for a timer takes no step before it has expired. -/
theorem patient (n : Net DeployRun ProgressEvent) (due : Nat)
    (timer : task.timer? n.task = some due) (early : n.now < due) : n.moves task = [] := by
  simp only [task, timer?] at timer
  simp only [Net.moves, task, moves]
  split at timer
  · next phase =>
    obtain rfl := Option.some.inj timer
    simp [phase, view, Nat.not_le.mpr early]
  · next phase =>
    obtain rfl := Option.some.inj timer
    simp [phase, view, Nat.not_le.mpr early]
  · cases timer

/-- Draining runs exist, from every state with its consumer. -/
theorem exists_draining {n : Net DeployRun ProgressEvent} (here : n.gone = false) :
    ∃ run : Run task n, run.Draining := by
  refine ⟨Run.eager task here, Run.eager_draining here ?_⟩
  intro m due timer early move hm
  rw [patient m due timer early] at hm
  cases hm

/-- Nothing is queued for a consumer that has left. -/
theorem quiet (n : Net DeployRun ProgressEvent) (gone : n.gone = true) :
    ∀ move ∈ n.moves task, move.event = none := by
  intro move hm
  cases mem_moves_iff.mp hm with
  | send _ _ here | report _ _ here =>
    rw [show n.view.gone = n.gone from rfl, gone] at here
    cases here
  | look | leave | exit | exitUnheard | skip | clean => rfl

/-- Deserted runs exist, from every state. -/
theorem exists_deserted (n : Net DeployRun ProgressEvent) : ∃ run : Run task n, run.Deserted := by
  refine ⟨Run.alone quiet n, Run.alone_deserted quiet n ?_⟩
  intro m due timer early move hm
  rw [patient m due timer early] at hm
  cases hm

end DeployRun

end DeployWatch
