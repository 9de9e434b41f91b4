/-
# The events of a deployment run

The items of the two pipes arrive in some order, and this order decides what a run reports: one
event for each line before the first item that is a fault, and a last event that says how the run
ended (`DeployRun.report`).  What has been received, what is queued and what the run is about to
send are tied to the order so far by one account (`DeployRun.Account`).  While the consumer is
there they are the events of the order, and a consumer that leaves has received the beginning of
them.

The main statement is `DeployRun.reports_every_line`.
-/

import Mathlib.Data.List.Infix
import DeployWatch.Proofs.Deploy.Turns

namespace DeployWatch

open DeployWatch.Watch Net

variable {a b rest order : List PipeItem}

/-! ### What an order of arrival reports -/

namespace PipeItem

/-- The lines of items up to the first fault. -/
def heard : List PipeItem → List String
  | [] => []
  | .line text :: rest => text :: heard rest
  | .pause _ :: rest => heard rest
  | .fault _ :: _ => []

/-- The first fault among items. -/
def lost? : List PipeItem → Option ProcessFault
  | [] => none
  | .fault f :: _ => some f
  | .line _ :: rest => lost? rest
  | .pause _ :: rest => lost? rest

theorem lost?_append (a b : List PipeItem) : lost? (a ++ b) = (lost? a).or (lost? b) := by
  induction a with
  | nil => rfl
  | cons item a ih => cases item <;> simp [lost?, ih]

/-- Without a fault everything is heard. -/
theorem heard_append (whole : lost? a = none) (b : List PipeItem) :
    heard (a ++ b) = heard a ++ heard b := by
  induction a with
  | nil => rfl
  | cons item a ih => cases item <;> simp_all [heard, lost?]

/-- Behind a fault nothing is heard. -/
theorem heard_append_of_lost (lost : lost? a ≠ none) (b : List PipeItem) :
    heard (a ++ b) = heard a := by
  induction a with
  | nil => exact absurd rfl lost
  | cons item a ih => cases item <;> simp_all [heard, lost?]

end PipeItem

namespace DeployRun

open PipeItem (heard lost? delivered)

/-- The events of the lines of some items. -/
def lineEvents (order : List PipeItem) : List ProgressEvent :=
  (heard order).map fun line => { step := StepCount.ofLine? line, lines := [line] }

/-- What a run says of its end: output that could not be read counts more than the exit. -/
def verdict (order : List PipeItem) (exit : Except ProcessFault Exit) : Option DeployFault :=
  match lost? order, exit with
  | some f, _ => some (.output f.message)
  | none, .ok .success => none
  | none, .ok (.code n) => some (.exited n)
  | none, .ok (.signal n) => some (.signaled n)
  | none, .error f => some (.wait f.message)

/-- The events of a run whose items arrive in this order: one for each line up to the first fault,
and a last one. -/
def report (order : List PipeItem) (exit : Except ProcessFault Exit) : List ProgressEvent :=
  lineEvents order ++ [{ fault := verdict order exit }]

/-- Later items add their events at the end. -/
theorem lineEvents_grows (a b : List PipeItem) : lineEvents a <+: lineEvents (a ++ b) := by
  refine List.IsPrefix.map _ ?_
  by_cases whole : lost? a = none
  · rw [PipeItem.heard_append whole]
    exact List.prefix_append _ _
  · rw [PipeItem.heard_append_of_lost whole]

/-- Behind a fault nothing is reported. -/
theorem report_append_of_lost (lost : lost? a ≠ none) (exit : Except ProcessFault Exit) :
    report (a ++ b) exit = report a exit := by
  have same : lost? (a ++ b) = lost? a := by
    rw [PipeItem.lost?_append, Option.or_of_isSome (Option.isSome_iff_ne_none.mpr lost)]
  unfold report lineEvents verdict
  rw [PipeItem.heard_append_of_lost lost, same]

/-- Without a fault the events of later items come behind those of the earlier ones. -/
theorem lineEvents_append (whole : lost? a = none) (b : List PipeItem) :
    lineEvents (a ++ b) = lineEvents a ++ lineEvents b := by
  rw [lineEvents, PipeItem.heard_append whole, List.map_append]
  rfl

/-! ### The account of a run -/

variable {p : ProcessRun} {r : DeployRun} {v : View} {move : Move DeployRun ProgressEvent}
  {n m : Net DeployRun ProgressEvent}

/-- The events that a run is about to send. -/
def held (r : DeployRun) : List ProgressEvent :=
  match r.phase with
  | .sending line => [.ofLine line]
  | .exiting _ lost _ => [.finished (r.outcome lost)]
  | .reporting event => [event]
  | .reading | .idle _ | .cleaning | .ended => []

/-- The run reads no more. -/
def isOver (r : DeployRun) : Bool :=
  match r.phase with
  | .reading | .idle _ | .sending _ => false
  | .exiting _ _ _ | .reporting _ | .cleaning | .ended => true

/-- The pipes of a process before anything was read. -/
def unread (p : ProcessRun) : Merge where
  stdout := { items := p.stdout }
  stderr := { items := p.stderr }

theorem unread_sound : (unread p).Sound := by rintro (_ | _) ⟨⟩

/-- After these items there is nothing more to report. -/
def Complete (order : List PipeItem) (m : Merge) : Prop :=
  lost? order ≠ none ∨ ∀ side, delivered (m.pipe side).items = []

/-- What is known of a run and of the items that have arrived, whoever listens. -/
structure Course (p : ProcessRun) (order : List PipeItem) (r : DeployRun) : Prop where
  gives : (unread p).Gives order r.merge
  exit : r.exit = p.exit
  /-- Nothing is read behind a fault. -/
  going : r.isOver = false → lost? order = none

/-- What is known of a run whose consumer is there: what has been received, queued or is about to
be sent are the events of the items so far. -/
structure Account (p : ProcessRun) (order : List PipeItem) (n : Net DeployRun ProgressEvent) :
    Prop where
  listened : ∀ due lost, n.task.phase ≠ .exiting due lost true
  going : n.task.isOver = false →
    n.received ++ n.queue ++ n.task.held = lineEvents order
  ceased : n.task.isOver = true → Complete order n.task.merge ∧
    n.received ++ n.queue ++ n.task.held = report order p.exit

/-- What is known of a run whose consumer has left: it has received events of lines or all
events. -/
def Left (p : ProcessRun) (order : List PipeItem) (n : Net DeployRun ProgressEvent) : Prop :=
  n.received <+: lineEvents order ∨
    n.task.isOver = true ∧ Complete order n.task.merge ∧ n.received = report order p.exit

/-- What a run says after its last item is what it says of its end. -/
theorem finished_outcome (exit : r.exit = p.exit) (order : List PipeItem) :
    ProgressEvent.finished (r.outcome ((lost? order).map fun f => .output f.message)) =
      { fault := verdict order p.exit } := by
  unfold ProgressEvent.finished verdict
  rw [← exit]
  cases lost? order with
  | some f => rfl
  | none =>
    cases h : r.exit with
    | ok status => cases status <;> simp [outcome, exitFault, h]
    | error f => simp [outcome, exitFault, h]

/-- A look adds what it gives to the order. -/
theorem Course.look (course : Course p order r) (going : r.isOver = false) (now : Nat) :
    Course p (order ++ (r.merge.poll now).2.item?.toList) (r.read now) where
  gives := by
    rw [read_merge]
    exact .snoc course.gives now
  exit := (read_exit now r).trans course.exit
  going ceased := by
    rw [PipeItem.lost?_append, course.going going, Option.none_or]
    rw [isOver, read_phase] at ceased
    cases h : (r.merge.poll now).2 <;> simp [h, PipeState.item?, lost?] at ceased ⊢

/-- What a turn that is no look keeps. -/
structure Frame (v : View) (r : DeployRun) (move : Move DeployRun ProgressEvent) : Prop where
  merge : move.state.merge = r.merge
  exit : move.state.exit = r.exit
  ceased : r.isOver = true → move.state.isOver = true
  /-- While the consumer is there, an event that is sent was about to be sent. -/
  here : v.gone = false → (∀ due lost, r.phase ≠ .exiting due lost true) →
    move.state.isOver = r.isOver ∧ move.event.toList ++ move.state.held = r.held ∧
      ∀ due lost, move.state.phase ≠ .exiting due lost true

theorem Course.frame (course : Course p order r) (frame : Frame v r move) :
    Course p order move.state where
  gives := frame.merge ▸ course.gives
  exit := frame.exit.trans course.exit
  going going := course.going (by
    cases ceased : r.isOver with
    | false => rfl
    | true => rw [frame.ceased ceased] at going; cases going)

/-- A turn is a look of a run that still reads, or it leaves the items as they are. -/
theorem look_or_frame (turn : Turn v r move) :
    (r.isOver = false ∧ r.held = [] ∧ move = { state := r.read v.now }) ∨ Frame v r move := by
  cases turn with
  | look ready =>
    refine .inl ?_
    rcases ready with phase | ⟨due, phase, -⟩ <;> simp [isOver, held, phase]
  | send line phase | report event phase | clean phase | skip event phase =>
    refine .inr ⟨rfl, rfl, by simp [isOver, phase, DeployRun.clean], fun here _ => ?_⟩
    simp_all [isOver, held, DeployRun.clean]
  | leave line phase gone =>
    refine .inr ⟨rfl, rfl, by simp [isOver, phase], fun here => ?_⟩
    rw [gone] at here
    cases here
  | exit due lost phase =>
    refine .inr ⟨rfl, rfl, by simp [isOver], fun _ _ => ?_⟩
    simp [isOver, held, phase]
  | exitUnheard due lost phase =>
    exact .inr ⟨rfl, rfl, by simp [isOver], fun _ heard => absurd phase (heard due lost)⟩

/-- The account of a run that still reads. -/
theorem Account.of_going (going : n.task.isOver = false)
    (all : n.received ++ n.queue ++ n.task.held = lineEvents order) : Account p order n where
  listened due lost phase := by simp [isOver, phase] at going
  going _ := all
  ceased ceased := by rw [going] at ceased; cases ceased

/-- The account of a run that has just read for the last time. -/
theorem Account.of_exiting {due : Nat} {lost : Option DeployFault}
    (phase : n.task.phase = .exiting due lost false) (complete : Complete order n.task.merge)
    (all : n.received ++ n.queue ++ n.task.held = report order p.exit) : Account p order n where
  listened due lost phase' := by rw [phase] at phase'; cases phase'
  going going := by simp [isOver, phase] at going
  ceased _ := ⟨complete, all⟩

/-- A look adds what it gives to the account. -/
theorem Account.look (account : Account p order n) (course : Course p order n.task)
    (going : n.task.isOver = false) (none_held : n.task.held = []) :
    Account p (order ++ (n.task.merge.poll n.now).2.item?.toList)
      (n.take { state := n.task.read n.now }) := by
  have whole := course.going going
  have sent := account.going going
  rw [none_held, List.append_nil] at sent
  obtain ⟨-, look⟩ := Merge.look n.now (course.gives.sound unread_sound)
  have phase := read_phase n.now n.task
  have exit := (read_exit n.now n.task).trans course.exit
  have merge := read_merge n.now n.task
  generalize n.task.read n.now = r at phase exit merge
  -- the queue stays as it is, so only what is about to be sent is added
  have queued : ∀ events, lineEvents order ++ r.held = events →
      (n.take { state := r }).received ++ (n.take { state := r }).queue ++ r.held = events := by
    intro events all
    simpa [take, sent] using all
  cases h : (n.task.merge.poll n.now).2 with
  | line text =>
    rw [h] at phase
    refine .of_going (by simp [take, isOver, phase]) (queued _ ?_)
    rw [PipeState.item?, Option.toList_some, lineEvents_append whole]
    simp [held, phase, lineEvents, heard, ProgressEvent.ofLine]
  | pending =>
    rw [h] at phase
    refine .of_going (by simp [take, isOver, phase]) (queued _ ?_)
    simp [PipeState.item?, held, phase]
  | fault f =>
    rw [h] at phase
    have lost : lost? (order ++ [.fault f]) = some f := by
      rw [PipeItem.lost?_append, whole]
      rfl
    have last := finished_outcome exit (order ++ [.fault f])
    rw [lost] at last
    rw [PipeState.item?, Option.toList_some]
    refine .of_exiting phase (.inl (by simp [lost])) (queued _ ?_)
    rw [report, lineEvents_append whole, ← last]
    simp [held, phase, lineEvents, heard]
  | ended =>
    rw [h] at phase
    have last := finished_outcome exit order
    rw [whole] at last
    rw [PipeState.item?, Option.toList_none, List.append_nil]
    refine .of_exiting phase (.inr fun side => ?_) (queued _ ?_)
    · cases look with
      | item x given | pending given => rw [h] at given; cases given
      | ended _ _ rest =>
        rw [show (n.take { state := r }).task.merge = _ from merge, rest side]
        rfl
    · rw [report, ← last]
      simp [held, phase]

/-- Events that move from one place of the account to the next leave it as it is. -/
theorem Account.of_same (account : Account p order n) (merge : m.task.merge = n.task.merge)
    (ceased : m.task.isOver = n.task.isOver)
    (listened : ∀ due lost, m.task.phase ≠ .exiting due lost true)
    (all : m.received ++ m.queue ++ m.task.held = n.received ++ n.queue ++ n.task.held) :
    Account p order m where
  listened := listened
  going going := all.trans (account.going (ceased ▸ going))
  ceased o := by
    rw [merge, all]
    exact account.ceased (ceased ▸ o)

/-- What was received of an account is the beginning of it. -/
theorem Account.left (account : Account p order n) (rest : m.task = n.task)
    (received : m.received = n.received) : Left p order m := by
  unfold Left
  rw [rest, received]
  cases ceased : n.task.isOver with
  | false =>
    refine .inl ?_
    rw [← account.going ceased, List.append_assoc]
    exact List.prefix_append _ _
  | true =>
    obtain ⟨complete, all⟩ := account.ceased ceased
    have part : n.received <+: report order p.exit := by
      rw [← all, List.append_assoc]
      exact List.prefix_append _ _
    rcases List.prefix_concat_iff.mp part with whole | part
    · exact .inr ⟨rfl, complete, whole⟩
    · exact .inl part

/-- Items have arrived in some order, and what has become of them is known. -/
def Reported (p : ProcessRun) (n : Net DeployRun ProgressEvent) : Prop :=
  ∃ order, Course p order n.task ∧ (n.gone = false → Account p order n) ∧
    (n.gone = true → Left p order n)

theorem reported_start (p : ProcessRun) (files : FileTree) (current : Location)
    (scratch : Option Path) (capacity : Nat) :
    Reported p (Net.start (ofProcess p files current scratch) capacity false) :=
  ⟨[], ⟨.nil, rfl, fun _ => rfl⟩, fun _ => .of_going rfl rfl, by rintro ⟨⟩⟩

/-- Every turn keeps the report. -/
theorem Reported.turn (h : Reported p n) (turn : Turn n.view n.task move) :
    Reported p (n.take move) := by
  obtain ⟨order, course, account, left⟩ := h
  rcases look_or_frame turn with ⟨going, none_held, rfl⟩ | frame
  · refine ⟨_, course.look going n.now, fun here => (account here).look course going none_held,
      fun gone => .inl ?_⟩
    rcases left gone with part | ⟨ceased, -⟩
    · exact part.trans (lineEvents_grows _ _)
    · rw [going] at ceased
      cases ceased
  · refine ⟨order, course.frame frame, fun here => ?_, fun gone => ?_⟩
    · obtain ⟨ceased, held, listened⟩ := frame.here here (account here).listened
      refine (account here).of_same frame.merge ceased listened ?_
      change n.received ++ (n.queue ++ move.event.toList) ++ move.state.held = _
      rw [← held]
      simp only [List.append_assoc]
    · rcases left gone with part | ⟨ceased, complete, whole⟩
      · exact .inl part
      · refine .inr ⟨frame.ceased ceased, ?_, whole⟩
        rw [show (n.take move).task.merge = _ from frame.merge]
        exact complete

/-- Every step keeps the report. -/
theorem Reported.step (step : Step task n m) (h : Reported p n) : Reported p m := by
  cases step with
  | task move hm => exact h.turn (mem_moves_iff.mp hm)
  | receive _ e here received =>
    obtain ⟨rest, hq, rfl⟩ := receive?_eq_some received
    obtain ⟨order, course, account, left⟩ := h
    refine ⟨order, course, fun _ => ?_, fun gone => ?_⟩
    · exact (account here).of_same rfl rfl (account here).listened (by simp [hq])
    · rw [show n.gone = true from gone] at here
      cases here
  | drop =>
    obtain ⟨order, course, account, left⟩ := h
    refine ⟨order, course, by rintro ⟨⟩, fun _ => ?_⟩
    cases gone : n.gone with
    | false => exact (account gone).left rfl rfl
    | true => exact left gone
  | cancel | elapse =>
    obtain ⟨order, course, account, left⟩ := h
    exact ⟨order, course, fun here => (account here).of_same rfl rfl (account here).listened rfl,
      left⟩

/-! ### Every line is reported -/

/-- The items that have not arrived yet can be put behind those that have.  If there is nothing
more to report then no item is left, or a fault has arrived. -/
theorem Course.extend {r : DeployRun} (course : Course p order r) : ∃ rest,
    Interleaving (delivered p.stdout) (delivered p.stderr) (order ++ rest) ∧
      (Complete order r.merge → lost? order ≠ none ∨ rest = []) := by
  obtain ⟨out, err, mixed, hout, herr⟩ := course.gives.interleaving unread_sound
  have later := (Interleaving.of_left (delivered r.merge.stdout.items)).append
    (.of_right (delivered r.merge.stderr.items))
  have whole := mixed.append later
  rw [List.append_nil, List.nil_append, ← hout, ← herr] at whole
  refine ⟨_, whole, Or.imp_right fun exhausted => ?_⟩
  have out_nil : delivered r.merge.stdout.items = [] := exhausted false
  have err_nil : delivered r.merge.stderr.items = [] := exhausted true
  rw [out_nil, err_nil, List.append_nil]

/-- Where nothing more is to be reported later items do not count. -/
theorem report_append (done : lost? a ≠ none ∨ b = []) (exit : Except ProcessFault Exit) :
    report (a ++ b) exit = report a exit := by
  rcases done with lost | rfl
  · exact report_append_of_lost lost exit
  · rw [List.append_nil]

/-- Whatever has become of the items that have arrived, what was received of them is the beginning
of what is reported in the end. -/
theorem received_prefix_report (course : Course p order n.task) (left : Left p order n) :
    ∃ rest, Interleaving (delivered p.stdout) (delivered p.stderr) (order ++ rest) ∧
      n.received <+: report (order ++ rest) p.exit := by
  obtain ⟨rest, mixed, done⟩ := course.extend
  refine ⟨rest, mixed, ?_⟩
  rcases left with part | ⟨-, complete, whole⟩
  · exact part.trans ((lineEvents_grows order rest).trans (List.prefix_append _ _))
  · rw [whole, report_append (done complete)]

/-- In every state of a run the consumer has received the beginning of a report. -/
theorem exists_prefix_report (h : Reported p n) :
    ∃ taken rest, (unread p).Gives taken n.task.merge ∧
      Interleaving (delivered p.stdout) (delivered p.stderr) (taken ++ rest) ∧
      n.received <+: report (taken ++ rest) p.exit := by
  obtain ⟨order, course, account, left⟩ := h
  have left : Left p order n := by
    cases gone : n.gone with
    | false => exact (account gone).left rfl rfl
    | true => exact left gone
  obtain ⟨rest, mixed, part⟩ := received_prefix_report course left
  exact ⟨order, rest, course.gives, mixed, part⟩

/-- A queue that reads closed before its consumer has left has been emptied of a whole report. -/
theorem exists_report (h : Reported p n) (here : n.gone = false) (closed : n.isClosed task = true) :
    ∃ taken rest, (unread p).Gives taken n.task.merge ∧
      Interleaving (delivered p.stdout) (delivered p.stderr) (taken ++ rest) ∧
      (lost? taken ≠ none ∨ rest = []) ∧ n.received = report (taken ++ rest) p.exit := by
  obtain ⟨order, course, account, -⟩ := h
  simp only [isClosed, Bool.and_eq_true, List.isEmpty_iff] at closed
  obtain ⟨empty, ended⟩ := closed
  have phase : n.task.phase = .ended := by simpa [task] using ended
  obtain ⟨complete, all⟩ := (account here).ceased (by simp [isOver, phase])
  rw [empty, show n.task.held = [] by simp [held, phase], List.append_nil, List.append_nil] at all
  obtain ⟨rest, mixed, done⟩ := course.extend
  exact ⟨order, rest, course.gives, mixed, done complete,
    by rw [all, report_append (done complete)]⟩

/-- **A deployment run reports every line.**  At any time what has been received is the beginning
of a report: one event for each line that comes before the first fault, in an order of arrival that
keeps the order of each pipe and begins with the items taken so far, and a last event.  And a
consumer that stays receives a whole report, after which the queue reads closed; all items have
been taken by then, unless one of those taken is a fault. -/
theorem reports_every_line (p : ProcessRun) (files : FileTree) (current : Location)
    (scratch : Option Path) (capacity : Nat) :
    (∀ n, Steps task (Net.start (ofProcess p files current scratch) capacity false) n →
      ∃ taken rest, (unread p).Gives taken n.task.merge ∧
        Interleaving (delivered p.stdout) (delivered p.stderr) (taken ++ rest) ∧
        n.received <+: report (taken ++ rest) p.exit) ∧
    (∀ run : Run task (Net.start (ofProcess p files current scratch) capacity false),
      run.Draining → ∃ taken rest i, (unread p).Gives taken (run.state i).task.merge ∧
        Interleaving (delivered p.stdout) (delivered p.stderr) (taken ++ rest) ∧
        (lost? taken ≠ none ∨ rest = []) ∧
        ∀ j ≥ i, (run.state j).received = report (taken ++ rest) p.exit ∧
          (run.state j).isClosed task = true) := by
  have reported : ∀ {n},
      Steps task (Net.start (ofProcess p files current scratch) capacity false) n → Reported p n :=
    fun steps =>
      steps.keeps (fun step h => h.step step) (reported_start p files current scratch capacity)
  refine ⟨fun n steps => exists_prefix_report (reported steps), fun run fair => ?_⟩
  obtain ⟨i, closed⟩ := fair.exists_isClosed_of_forall responsive (start_capacity_pos _ _ _)
    fun i => acc (fit_of_steps (run.steps i) (fit_ofProcess p files current scratch))
  obtain ⟨taken, rest, gives, mixed, done, all⟩ :=
    exists_report (reported (run.steps i)) (fair.attached i) closed
  refine ⟨taken, rest, i, gives, mixed, done, fun j le => ?_⟩
  obtain ⟨-, -, received⟩ := Run.frozen_of_isClosed responsive closed j le
  exact ⟨received.trans all, Run.isClosed_of_le responsive le closed⟩

/-- A process that reports a step, pauses, prints another line and fails. -/
def failing : ProcessRun where
  stdout := [.line "app |  1/2 | 10:41:07 | UPDATE", .pause 5, .line "done"]
  stderr := [.pause 3]
  exit := .ok (.code 1)
  exitPause := 2

/-- The events of the failing process. -/
def failingEvents : List ProgressEvent :=
  [{ step := some ⟨1, 2⟩, lines := ["app |  1/2 | 10:41:07 | UPDATE"] }, { lines := ["done"] },
    { fault := some (.exited 1) }]

/-- Both lines of the failing process are received through the smallest queue, then its exit code,
and never anything else. -/
theorem reports_failing :
    ∃ run : Run task (Net.start (ofProcess failing {} [] none) 0 false), run.Draining ∧
      (∀ i, (run.state i).received <+: failingEvents) ∧
      ∃ i, (run.state i).isClosed task = true ∧ (run.state i).received = failingEvents := by
  obtain ⟨parts, whole⟩ := reports_every_line failing {} [] none 0
  obtain ⟨run, fair⟩ := exists_draining (n := Net.start (ofProcess failing {} [] none) 0 false) rfl
  have told : ∀ order,
      Interleaving (delivered failing.stdout) (delivered failing.stderr) order →
        report order failing.exit = failingEvents := by
    intro order mixed
    rw [mixed.eq_of_right_nil]
    decide +kernel
  refine ⟨run, fair, fun i => ?_, ?_⟩
  · obtain ⟨taken, rest, -, mixed, part⟩ := parts _ (run.steps i)
    rw [told _ mixed] at part
    exact part
  · obtain ⟨taken, rest, i, -, mixed, -, all⟩ := whole run fair
    obtain ⟨received, closed⟩ := all i le_rfl
    exact ⟨i, closed, received.trans (told _ mixed)⟩

end DeployRun

end DeployWatch
