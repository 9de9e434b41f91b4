/-
# Draining a deployment run

A consumer that receives all events of a run comes to the end of it: `DeployRun.isClosed_exhaust`
says that the number of things that may happen in `DeployRunner.collect` suffices.  For every thing
that happens lowers what is still to come, except for a jump of the clock, and no two of these
follow one another.

What the consumer has received then tells whether all went well
(`DeployRunner.Drains.result_eq_ok_iff`), in whatever order things happened, and the scratch
directory has been removed (`DeployRunner.Drains.tidiedUp`).
-/

import DeployWatch.Cli.Run
import DeployWatch.Proofs.Deploy.Residue

namespace DeployWatch

open DeployWatch.Watch Net

/-! ### Receiving until the queue is closed -/

namespace Watch.Net

variable {σ ε : Type} {t : Task σ ε} {n : Net σ ε}

theorem exhaust_of_isClosed (closed : n.isClosed t = true) (fuel : Nat) : n.exhaust t fuel = n := by
  cases fuel with
  | zero => rfl
  | succ fuel => rw [exhaust, if_pos closed]

theorem exhaust_succ (opened : n.isClosed t = false) (fuel : Nat) :
    n.exhaust t (fuel + 1) = (eager t n).exhaust t fuel := by
  rw [exhaust, if_neg (by simp [opened])]

/-- What comes of receiving until the queue is closed can come of single steps, and the consumer is
there all the time. -/
theorem steps_exhaust (here : n.gone = false) (fuel : Nat) :
    Steps t n (n.exhaust t fuel) ∧ (n.exhaust t fuel).gone = false := by
  induction fuel generalizing n with
  | zero => exact ⟨.refl n, here⟩
  | succ fuel ih =>
    cases closed : n.isClosed t with
    | true =>
      rw [exhaust_of_isClosed closed]
      exact ⟨.refl n, here⟩
    | false =>
      rw [exhaust_succ closed]
      obtain ⟨steps, here'⟩ := ih ((eager_flags t n).1.trans here)
      refine ⟨?_, here'⟩
      rcases eager_step (t := t) here with same | step
      · rw [same] at steps ⊢
        exact steps
      · exact step.steps.trans steps

end Watch.Net

theorem ProcessFault.exitCode_toFault (f : ProcessFault) : f.toFault.exitCode = 5 := by
  cases f <;> rfl

theorem DeployFault.exitCode_toFault (f : DeployFault) : f.toFault.exitCode = 5 := rfl

theorem PipeItem.lost?_eq_none_iff {order : List PipeItem} :
    lost? order = none ↔ ∀ f, .fault f ∉ order := by
  induction order with
  | nil => simp [lost?]
  | cons item order ih =>
    cases item with
    | line text | pause ms => simp [lost?, ih]
    | fault f =>
      constructor
      · intro none
        cases none
      · intro whole
        exact absurd List.mem_cons_self (whole f)

/-- A process succeeds if both of its pipes can be read to their ends and it exits with success. -/
structure ProcessRun.Succeeds (process : ProcessRun) : Prop where
  stdout : ∀ f, .fault f ∉ process.stdout
  stderr : ∀ f, .fault f ∉ process.stderr
  exit : process.exit = .ok .success

namespace DeployRun

variable {n : Net DeployRun ProgressEvent} {process : ProcessRun} {left : FileTree}
  {current : Location} {scratch : Option Path} {capacity : Nat}

/-! ### The end of a run is reached -/

/-- What is still to come: the load of the run, and the events to be received. -/
def toCome (n : Net DeployRun ProgressEvent) : Nat := n.task.load + n.queue.length

/-- A watch in whose queue there is room for an event and whose run is fit. -/
structure Able (n : Net DeployRun ProgressEvent) : Prop where
  fit : n.task.Fit
  room : 0 < n.capacity

theorem able_start (process : ProcessRun) (left : FileTree) (current : Location)
    (scratch : Option Path) (capacity : Nat) :
    Able (Net.start (ofProcess process left current scratch) capacity false) where
  fit := fit_ofProcess process left current scratch
  room := start_capacity_pos _ _ _

/-- Where something is left to receive or to do, it happens, and less is to come. -/
theorem eager_lighter (able : Able n) (ready : n.queue ≠ [] ∨ n.moves task ≠ []) :
    Able (eager task n) ∧ toCome (eager task n) < toCome n := by
  cases hq : n.queue with
  | cons e rest =>
    rw [eager_of_queue hq]
    exact ⟨⟨able.fit, able.room⟩, by simp [toCome, hq]⟩
  | nil =>
    obtain ⟨move, more, hm⟩ := List.exists_cons_of_ne_nil (ready.resolve_left (· hq))
    have turn : Turn n.view n.task move := mem_moves_iff.mp (by
      change move ∈ n.moves task
      simp [hm])
    obtain ⟨fit, less⟩ := able.fit.turn turn
    rw [eager_of_moves hq hm]
    refine ⟨⟨fit, able.room⟩, ?_⟩
    simpa [toCome, take, hq] using less

/-- Where nothing is left to receive or to do before the end, the clock jumps, and then something
can be done. -/
theorem eager_jumps (able : Able n) (opened : n.isClosed task = false) (empty : n.queue = [])
    (idle : n.moves task = []) :
    ∃ due, eager task n = n.advance due ∧ (n.advance due).moves task ≠ [] := by
  have alive : n.task.phase ≠ .ended := by simpa [isClosed, empty, task] using opened
  have room (m : Net DeployRun ProgressEvent) (queue : m.queue = n.queue)
      (capacity : m.capacity = n.capacity) : m.view.room = true := by
    simpa [view, queue, capacity, empty] using able.room
  have waits : ∃ due, task.timer? n.task = some due ∧ n.now < due := by
    by_contra none
    push Not at none
    exact moves_ne_nil alive (.inr (room n rfl rfl)) none idle
  obtain ⟨due, timer, later⟩ := waits
  refine ⟨due, ?_, ?_⟩
  · rw [eager_of_idle empty idle, timer]
    exact if_pos later.le
  · refine moves_ne_nil alive (.inr (room _ rfl rfl)) fun due' timer' => ?_
    obtain rfl := Option.some.inj (timer.symm.trans timer')
    exact le_rfl

/-- **Enough can happen for the queue to be closed.** -/
theorem isClosed_exhaust (able : Able n) {fuel : Nat} (enough : 2 * toCome n ≤ fuel) :
    (n.exhaust task fuel).isClosed task = true := by
  induction hl : toCome n using Nat.strong_induction_on generalizing n fuel with
  | _ count ih =>
    subst hl
    cases closed : n.isClosed task with
    | true =>
      rw [exhaust_of_isClosed closed]
      exact closed
    | false =>
      by_cases ready : n.queue ≠ [] ∨ n.moves task ≠ []
      · obtain ⟨able', less⟩ := eager_lighter able ready
        obtain ⟨fuel, rfl⟩ : ∃ k, fuel = k + 1 := ⟨fuel - 1, by omega⟩
        rw [exhaust_succ closed]
        exact ih _ less able' (by omega) rfl
      · push Not at ready
        obtain ⟨empty, idle⟩ := ready
        obtain ⟨due, jump, moves⟩ := eager_jumps able closed empty idle
        obtain ⟨able', less⟩ :=
          eager_lighter (n := n.advance due) ⟨able.fit, able.room⟩ (.inr moves)
        have same : toCome (n.advance due) = toCome n := rfl
        -- the jump and what follows it are paid for by what this takes away
        obtain ⟨fuel, rfl⟩ : ∃ k, fuel = k + 2 := ⟨fuel - 2, by omega⟩
        rw [exhaust_succ closed, jump, exhaust_succ (by exact closed)]
        exact ih _ (by omega) able' (by omega) rfl

/-- A run that nobody disturbs is followed to the end of one of the ways it can go. -/
theorem exists_collect_eq (process : ProcessRun) (left : FileTree) (current : Location)
    (scratch : Option Path) (capacity : Nat) : ∃ n,
    Steps task (Net.start (ofProcess process left current scratch) capacity false) n ∧
      n.gone = false ∧ n.isClosed task = true ∧
      DeployRunner.collect (Net.start (ofProcess process left current scratch) capacity false) =
        (n.received, n.task.files) := by
  obtain ⟨steps, here⟩ := steps_exhaust (t := task)
    (n := Net.start (ofProcess process left current scratch) capacity false) rfl _
  exact ⟨_, steps, here, isClosed_exhaust (able_start _ _ _ _ _) le_rfl, rfl⟩

/-! ### What the events tell -/

theorem fault_of_mem_lineEvents {order : List PipeItem} {e : ProgressEvent}
    (mem : e ∈ lineEvents order) : e.fault = none := by
  obtain ⟨line, -, rfl⟩ := List.mem_map.mp mem
  rfl

/-- The failure that a report tells of is the verdict on the run. -/
theorem failureOf_report (order : List PipeItem) (exit : Except ProcessFault Exit) :
    Cli.failureOf (report order exit) = verdict order exit := by
  have lines : (lineEvents order).filterMap (·.fault) = [] :=
    List.filterMap_eq_nil_iff.mpr fun e => fault_of_mem_lineEvents
  rw [Cli.failureOf, report, List.filterMap_append, lines, List.nil_append]
  cases verdict order exit <;> simp

theorem verdict_eq_none_iff {order : List PipeItem} {exit : Except ProcessFault Exit} :
    verdict order exit = none ↔ (∀ f, .fault f ∉ order) ∧ exit = .ok .success := by
  rw [← PipeItem.lost?_eq_none_iff]
  unfold verdict
  cases PipeItem.lost? order with
  | some f => simp
  | none =>
    cases exit with
    | ok status => cases status <;> simp
    | error f => simp

theorem phase_of_isClosed (closed : n.isClosed task = true) : n.task.phase = .ended := by
  simp only [isClosed, Bool.and_eq_true] at closed
  simpa [task] using closed.2

/-- Whatever the order in which things happened: a consumer that has received all events of a run
was told of no failure just if the process succeeds. -/
theorem failureOf_received_eq_none_iff
    (steps : Steps task (Net.start (ofProcess process left current scratch) capacity false) n)
    (here : n.gone = false) (closed : n.isClosed task = true) :
    Cli.failureOf n.received = none ↔ process.Succeeds := by
  have reported : Reported process n := steps.keeps (fun step h => h.step step)
    (reported_start process left current scratch capacity)
  obtain ⟨taken, rest, -, mixed, -, all⟩ := exists_report reported here closed
  rw [all, failureOf_report, verdict_eq_none_iff]
  simp only [mixed.mem_iff, PipeItem.fault_mem_delivered, not_or]
  constructor
  · rintro ⟨whole, exit⟩
    exact ⟨fun f => (whole f).1, fun f => (whole f).2, exit⟩
  · rintro ⟨stdout, stderr, exit⟩
    exact ⟨fun f => ⟨stdout f, stderr f⟩, exit⟩

end DeployRun

/-! ### How a use of the tool ends -/

namespace DeployRunner

open DeployRun FileTree

variable {σ : Type} {d : DeployRunner σ} {w : Workshop σ} {r : DeployRequest}
  {made after : FileTree} {scratch : Path} {fault : Fault} {result : Except Fault Unit}

/-- All goes well with a use of the tool: the scratch directory can be made, the tool can be
started, its output can be read, and it exits with success. -/
def GoesWell (d : DeployRunner σ) (w : Workshop σ) (r : DeployRequest) : Prop :=
  ∃ made scratch process, d.prepared w r = (made, .ok scratch) ∧
    (d.launch w.launcher made (d.commandFor r scratch)).2.2 = .ok process ∧ process.Succeeds

/-- The result of a run for a consumer that has received these events. -/
def resultOf (events : List ProgressEvent) : Except Fault Unit :=
  match Cli.failureOf events with
  | some fault => .error fault.toFault
  | none => .ok ()

/-- The files and the result that there can be when a use of the tool is over and its consumer has
received all events, in whatever order things have happened. -/
inductive Drains (d : DeployRunner σ) (w : Workshop σ) (r : DeployRequest) :
    FileTree → Except Fault Unit → Prop
  /-- The tool was not started. -/
  | refused (fault : Fault) (h : (d.execute w r).2 = .error fault) :
      Drains d w r (d.execute w r).1.files (.error fault)
  /-- The queue reads closed. -/
  | drained (net n : RunNet) (h : (d.execute w r).2 = .ok net) (steps : Steps task net n)
      (here : n.gone = false) (closed : n.isClosed task = true) :
      Drains d w r n.task.files (resultOf n.received)

/-- What is drained is over. -/
theorem Drains.leaves (drains : d.Drains w r after result) : d.Leaves w r after := by
  cases drains with
  | refused fault h => exact .refused fault h
  | drained net n h steps _ closed => exact .ended net n h steps (phase_of_isClosed closed)

/-- What becomes of a request, and why. -/
inductive Executes (d : DeployRunner σ) (w : Workshop σ) (r : DeployRequest) :
    Except Fault RunNet → Prop
  /-- The scratch directory cannot be made. -/
  | unprepared (made : FileTree) (fault : Fault) (prep : d.prepared w r = (made, .error fault)) :
      Executes d w r (.error fault)
  /-- The tool cannot be started. -/
  | unstarted (made : FileTree) (scratch : Path) (fault : ProcessFault)
      (prep : d.prepared w r = (made, .ok scratch))
      (fails : (d.launch w.launcher made (d.commandFor r scratch)).2.2 = .error fault) :
      Executes d w r (.error fault.toFault)
  /-- The tool is watched. -/
  | watched (made : FileTree) (scratch : Path) (process : ProcessRun)
      (prep : d.prepared w r = (made, .ok scratch))
      (starts : (d.launch w.launcher made (d.commandFor r scratch)).2.2 = .ok process) :
      Executes d w r (.ok (Net.start
        (ofProcess process (d.foundFor w r made scratch) w.current (some scratch)) d.capacity
        false))

/-- Every request is executed in one of these ways. -/
theorem executes (d : DeployRunner σ) (w : Workshop σ) (r : DeployRequest) :
    d.Executes w r (d.execute w r).2 := by
  cases prep : d.prepared w r with
  | mk made prepared =>
  cases prepared with
  | error fault =>
    rw [(execute_of_unprepared prep).2]
    exact .unprepared made fault prep
  | ok scratch =>
    rw [execute_of_prepared prep]
    cases started : (d.launch w.launcher made (d.commandFor r scratch)).2.2 with
    | error fault => exact .unstarted made scratch fault prep started
    | ok process => exact .watched made scratch process prep started

/-- The program drains what it has started. -/
theorem drains_deploy (d : DeployRunner σ) (w : Workshop σ) (r : DeployRequest) :
    d.Drains w r (Cli.deploy d w r).1 (Cli.deploy d w r).2 := by
  unfold Cli.deploy
  cases executed : d.execute w r with
  | mk w' started =>
  have started_eq : (d.execute w r).2 = started := by rw [executed]
  cases started with
  | error fault =>
    have files : (d.execute w r).1.files = w'.files := by rw [executed]
    simpa only [files] using Drains.refused fault started_eq
  | ok net =>
    have executes := d.executes w r
    rw [started_eq] at executes
    cases executes with
    | watched made scratch process =>
      obtain ⟨n, steps, here, closed, collected⟩ := exists_collect_eq process
        (d.foundFor w r made scratch) w.current (some scratch) d.capacity
      simp only [collected]
      exact .drained _ n started_eq steps here closed

/-- If the tool could be started it depends on the process whether all goes well. -/
theorem goesWell_iff {process : ProcessRun} (prep : d.prepared w r = (made, .ok scratch))
    (starts : (d.launch w.launcher made (d.commandFor r scratch)).2.2 = .ok process) :
    d.GoesWell w r ↔ process.Succeeds := by
  constructor
  · rintro ⟨made', scratch', process', prep', starts', succeeds⟩
    obtain ⟨rfl, rfl⟩ := prepared_inj prep prep'
    obtain rfl := Except.ok.inj (starts.symm.trans starts')
    exact succeeds
  · intro succeeds
    exact ⟨made, scratch, process, prep, starts, succeeds⟩

/-- **A use of the tool succeeds just if all goes well.** -/
theorem Drains.result_eq_ok_iff (drains : d.Drains w r after result) :
    result = .ok () ↔ d.GoesWell w r := by
  have executes := d.executes w r
  cases drains with
  | refused fault h =>
    refine ⟨nofun, ?_⟩
    rintro ⟨made, scratch, process, prep, starts, -⟩
    rw [execute_of_prepared prep, starts] at h
    cases h
  | drained net n h steps here closed =>
    rw [h] at executes
    cases executes with
    | watched made scratch process prep starts =>
      rw [goesWell_iff prep starts, ← failureOf_received_eq_none_iff steps here closed]
      unfold resultOf
      cases Cli.failureOf n.received <;> simp

/-! ### What goes wrong is a fault of execution -/

/-- The exit code of a result. -/
def exitCodeOf : Except Fault Unit → Nat
  | .ok () => 0
  | .error fault => fault.exitCode

theorem exitCode_of_makeFresh {t : FileTree} {current : Location} {dir : Path} {tags : List String}
    (h : Scratch.makeFresh t current dir tags = (made, .error fault)) : fault.exitCode = 5 := by
  induction tags with
  | nil =>
    cases h
    rfl
  | cons tag tags ih =>
    unfold Scratch.makeFresh at h
    simp only at h
    split at h
    · cases h
    · exact ih h
    · cases h
      rfl

theorem exitCode_of_prepare {t : FileTree} {current : Location} {tags : List String}
    (h : Scratch.prepare t current tags r = (made, .error fault)) : fault.exitCode = 5 := by
  unfold Scratch.prepare at h
  split at h
  · simp only at h
    split at h
    · cases h
    · cases h
      rfl
  · exact exitCode_of_makeFresh h

/-- What goes wrong before a run, or in it, is a fault of execution. -/
theorem Drains.exitCodeOf_of_fails (drains : d.Drains w r after result)
    (fails : ¬ d.GoesWell w r) : exitCodeOf result = 5 := by
  have failed := drains.result_eq_ok_iff.not.mpr fails
  cases drains with
  | refused fault h =>
    have executes := d.executes w r
    rw [h] at executes
    cases executes with
    | unprepared made fault prep => exact exitCode_of_prepare prep
    | unstarted made scratch fault => exact fault.exitCode_toFault
  | drained net n =>
    unfold resultOf at failed ⊢
    cases told : Cli.failureOf n.received with
    | none => simp [told] at failed
    | some fault => exact fault.exitCode_toFault

open Classical in
/-- The exit code depends only on how it went. -/
theorem Drains.exitCodeOf_eq (drains : d.Drains w r after result) :
    exitCodeOf result = if d.GoesWell w r then 0 else 5 := by
  split
  · next well => rw [drains.result_eq_ok_iff.mpr well, exitCodeOf]
  · next fails => exact drains.exitCodeOf_of_fails fails

/-! ### What is left of a scratch directory -/

/-- The scratch directory of a use of the tool is gone.  One whose path ends in dots cannot be
removed, but a fresh one has no such path. -/
structure TidiedUp (d : DeployRunner σ) (w : Workshop σ) (r : DeployRequest) (after : FileTree) :
    Prop where
  /-- If there is no fresh directory nothing was made. -/
  untouched : ∀ made fault, r.output = none → d.prepared w r = (made, .error fault) →
    after = w.files
  /-- The path of the directory leads to no directory any more. -/
  removed : ∀ made scratch, d.prepared w r = (made, .ok scratch) →
    (r.output = none ∨ endsInDots scratch = false) →
    after.isDirectoryPath w.current scratch = false
  /-- Nothing is left at its place or below, unless the tool has put something else there. -/
  cleared : ∀ made scratch, d.prepared w r = (made, .ok scratch) →
    (r.output = none ∨ endsInDots scratch = false) →
    ((d.leftFor w r made scratch).isDirectoryPath w.current scratch = true ∨
      ∀ place, aim w.current scratch <+: place →
        (d.leftFor w r made scratch).get? place = none) →
    ∀ place, aim w.current scratch <+: place → after.get? place = none

/-- **No scratch directory is left** when the events of a run are all received, in whatever order
things have happened, nor when the tool was not started. -/
theorem Drains.tidiedUp (drains : d.Drains w r after result) : d.TidiedUp w r after := by
  have plain {made : FileTree} {scratch : Path} (prep : d.prepared w r = (made, .ok scratch))
      (named : r.output = none ∨ endsInDots scratch = false) : endsInDots scratch = false := by
    rcases named with unset | plain
    · exact ((Scratch.prepared_of_prepare prep).fresh unset).2.plain
    · exact plain
  rcases leaves_cases drains.leaves with ⟨fault, prep⟩ | ⟨made, scratch, prep, removal⟩
  · refine ⟨fun made fault unset prep' => ?_, fun made scratch prep' => ?_,
      fun made scratch prep' => ?_⟩
    · exact (Scratch.grown_of_prepare_error prep).1 unset
    · rw [prep] at prep'
      cases prep'
    · rw [prep] at prep'
      cases prep'
  · refine ⟨fun made' fault unset prep' => ?_, fun made' scratch' prep' named => ?_,
      fun made' scratch' prep' named empty place below => ?_⟩
    · rw [prep] at prep'
      cases prep'
    · obtain ⟨-, rfl⟩ := prepared_inj prep prep'
      exact removal.leads_nowhere (plain prep named)
    · obtain ⟨rfl, rfl⟩ := prepared_inj prep prep'
      rcases removal.cleared empty below with gone | ⟨-, dots, -⟩
      · exact gone
      · rw [plain prep named] at dots
        cases dots

end DeployRunner

end DeployWatch
