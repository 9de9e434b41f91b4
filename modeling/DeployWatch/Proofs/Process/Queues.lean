/-
# A scripted launcher is one queue for each program

The expectations of a script stand in one list, and a command takes out the first one for its
program.  Seen by program, this is a queue (`Script.queue`): registering puts an expectation at the
end of its program's queue, starting a command takes the head of its program's queue, and nothing
else moves (`Script.actsAsQueues`).

A launcher is shared by all its handles, and a cloned handle leads to the same launcher.  So what
several holders of handles do, in whatever order, is for each launcher one course of events
(`Launchers.Course`), in which the expectations of a program are used up in the order in which they
were registered (`Script.ServesInTurn`).

The main statement is `Launchers.serve_each_program_in_turn`.
-/

import DeployWatch.Process.Scripted
import Mathlib.Data.List.Infix
import Mathlib.Logic.Function.Basic

namespace DeployWatch

namespace Script

variable {s : Script} {c : Command} {e : Expectation}

/-! ### The queues of a script -/

/-- The pending expectations for a program, the oldest first. -/
def queue (s : Script) (program : String) : List Expectation :=
  s.pending.filter (·.program = program)

/-- What a command gives that uses up this expectation, or finds none. -/
def answerTo (c : Command) : Option Expectation → Except ProcessFault ProcessRun
  | none => .error (.unscripted (complaint c))
  | some e => if e.missing then .error (.commandNotFound c.program) else .ok e.process

/-- The expectation that a command uses up. -/
def due? (s : Script) (c : Command) : Option Expectation :=
  (take? c.program s.pending).map (·.1)

/-- Only a command that finds no expectation is one that nobody expected. -/
theorem answerTo_eq_unscripted_iff {used : Option Expectation} :
    (∃ message, answerTo c used = .error (.unscripted message)) ↔ used = none := by
  constructor
  · rintro ⟨message, refused⟩
    cases used with
    | none => rfl
    | some e =>
      rw [answerTo] at refused
      split at refused <;> cases refused
  · rintro rfl
    exact ⟨complaint c, rfl⟩

/-- All that the start of a command can do. -/
inductive Starts (s : Script) (c : Command) :
    Option Expectation → Script → Except ProcessFault ProcessRun → Prop
  /-- It takes the first expectation for its program out of the list. -/
  | served (before after : List Expectation) (e : Expectation)
      (here : s.pending = before ++ e :: after) (program : e.program = c.program)
      (first : ∀ e' ∈ before, e'.program ≠ c.program) :
      Starts s c (some e) ⟨before ++ after, s.history ++ [c]⟩ (answerTo c (some e))
  /-- There is none, and it leaves the list as it is. -/
  | refused (absent : ∀ e ∈ s.pending, e.program ≠ c.program) :
      Starts s c none ⟨s.pending, s.history ++ [c]⟩ (answerTo c none)

/-- What is taken is the first expectation for a program, and the others stay as they are. -/
theorem take?_eq_some {program : String} {pending rest : List Expectation}
    (found : take? program pending = some (e, rest)) :
    ∃ before after, pending = before ++ e :: after ∧ rest = before ++ after ∧
      e.program = program ∧ ∀ e' ∈ before, e'.program ≠ program := by
  induction pending generalizing rest with
  | nil => cases found
  | cons first pending ih =>
    rw [take?] at found
    split at found
    · next same =>
      cases found
      exact ⟨[], pending, rfl, rfl, same, by simp⟩
    · next other =>
      obtain ⟨⟨e', rest'⟩, found', eq⟩ := Option.map_eq_some_iff.mp found
      cases eq
      obtain ⟨before, after, rfl, rfl, same, none_before⟩ := ih found'
      refine ⟨first :: before, after, rfl, rfl, same, ?_⟩
      simpa [other] using none_before

theorem take?_eq_none {program : String} {pending : List Expectation}
    (missing : take? program pending = none) : ∀ e ∈ pending, e.program ≠ program := by
  induction pending with
  | nil => simp
  | cons first pending ih =>
    rw [take?] at missing
    split at missing
    · cases missing
    · next other =>
      rw [Option.map_eq_none_iff] at missing
      simpa [other] using ih missing

theorem starts_start (s : Script) (c : Command) :
    s.Starts c (s.due? c) (s.start c).1 (s.start c).2 := by
  cases found : take? c.program s.pending with
  | none =>
    simp only [due?, start, found, Option.map_none]
    exact .refused (take?_eq_none found)
  | some taken =>
    obtain ⟨e, rest⟩ := taken
    obtain ⟨before, after, here, rfl, program, first⟩ := take?_eq_some found
    simp only [due?, start, found, Option.map_some]
    exact .served before after e here program first

/-! ### What is done to the queues -/

theorem queue_expect (s : Script) (e : Expectation) :
    (s.expect e).queue = Function.update s.queue e.program (s.queue e.program ++ [e]) := by
  funext program
  by_cases same : program = e.program
  · subst same
    simp [queue, expect]
  · rw [Function.update_of_ne same]
    simp [queue, expect, Ne.symm same]

/-- The start of a command takes the head of the queue of its program. -/
theorem queue_start (s : Script) (c : Command) :
    (s.start c).1.queue = Function.update s.queue c.program (s.queue c.program).tail ∧
      s.due? c = (s.queue c.program).head? := by
  have starts := s.starts_start c
  generalize s.due? c = used, (s.start c).1 = next, (s.start c).2 = answer at starts ⊢
  cases starts with
  | served before after e here program first =>
    have skipped : before.filter (·.program = c.program) = [] := by simpa using first
    have this_queue : s.queue c.program = e :: after.filter (·.program = c.program) := by
      simp [queue, here, skipped, program]
    refine ⟨?_, by rw [this_queue]; rfl⟩
    funext other
    by_cases same : other = c.program
    · subst same
      rw [Function.update_self, this_queue]
      simp [queue, skipped]
    · have passed : e.program ≠ other := by rw [program]; exact Ne.symm same
      rw [Function.update_of_ne same]
      simp [queue, here, passed]
  | refused absent =>
    have empty : s.queue c.program = [] := by simpa [queue] using absent
    refine ⟨?_, by rw [empty]; rfl⟩
    rw [empty, List.tail_nil, ← empty, Function.update_eq_self]
    rfl

theorem answer_start (s : Script) (c : Command) :
    (s.start c).2 = answerTo c (s.due? c) ∧ (s.start c).1.history = s.history ++ [c] := by
  have starts := s.starts_start c
  generalize s.due? c = used, (s.start c).1 = next, (s.start c).2 = answer at starts ⊢
  cases starts <;> exact ⟨rfl, rfl⟩

/-- A script is a queue of expectations for each program. -/
structure ActsAsQueues (s : Script) : Prop where
  /-- An expectation goes to the end of the queue of its program, and the others do not move. -/
  expect : ∀ e, (s.expect e).queue = Function.update s.queue e.program (s.queue e.program ++ [e])
  /-- A command takes the head of the queue of its program, and the others do not move. -/
  start : ∀ c, (s.start c).1.queue = Function.update s.queue c.program (s.queue c.program).tail
  /-- What the command gives is a matter of that head. -/
  answer : ∀ c, (s.start c).2 = answerTo c (s.queue c.program).head?
  /-- Just where there is none, the command is one that nobody expected. -/
  refuses : ∀ c, (∃ message, (s.start c).2 = .error (.unscripted message)) ↔
    s.queue c.program = []

theorem actsAsQueues (s : Script) : s.ActsAsQueues where
  expect := s.queue_expect
  start c := (s.queue_start c).1
  answer c := by rw [(s.answer_start c).1, (s.queue_start c).2]
  refuses c := by
    rw [(s.answer_start c).1, answerTo_eq_unscripted_iff, (s.queue_start c).2,
      List.head?_eq_none_iff]

end Script

/-! ### What happens to a script -/

/-- Something that happens to a script. -/
inductive ScriptEvent where
  | expected (e : Expectation)
  /-- A command is started, which uses up an expectation or finds none. -/
  | started (c : Command) (used : Option Expectation) (answer : Except ProcessFault ProcessRun)

namespace ScriptEvent

/-- The expectations registered for a program, in their order. -/
def registeredFor (program : String) (log : List ScriptEvent) : List Expectation :=
  log.filterMap fun
    | expected e => if e.program = program then some e else none
    | started .. => none

/-- The expectations used up by the commands that start a program, in their order. -/
def usedFor (program : String) (log : List ScriptEvent) : List Expectation :=
  log.filterMap fun
    | expected _ => none
    | started c used _ => if c.program = program then used else none

/-- The commands that were started, in their order. -/
def commandsOf (log : List ScriptEvent) : List Command :=
  log.filterMap fun
    | expected _ => none
    | started c _ _ => some c

end ScriptEvent

namespace Script

open ScriptEvent

/-- How a script has served the commands that were started. -/
structure ServesInTurn (s : Script) (log : List ScriptEvent) : Prop where
  /-- The expectations for a program are used up in their order, and the others are pending in
  their order. -/
  in_turn : ∀ program, registeredFor program log = usedFor program log ++ s.queue program
  /-- A command uses up the expectation for its program that comes after those used up before, and
  what it gives is a matter of this expectation. -/
  served : ∀ before c used answer, before ++ [started c used answer] <+: log →
    used = (registeredFor c.program before)[(usedFor c.program before).length]? ∧
      answer = answerTo c used
  /-- All commands have been noted down. -/
  history : s.history = commandsOf log

variable {log : List ScriptEvent} {s : Script}

theorem servesInTurn_nil : ServesInTurn {} [] where
  in_turn _ := rfl
  served before c used answer h := by simp at h
  history := rfl

theorem ServesInTurn.expect (serves : s.ServesInTurn log) (e : Expectation) :
    (s.expect e).ServesInTurn (log ++ [expected e]) where
  in_turn program := by
    rw [queue_expect]
    by_cases same : program = e.program
    · subst same
      simpa [registeredFor, usedFor] using congrArg (· ++ [e]) (serves.in_turn e.program)
    · rw [Function.update_of_ne same]
      simpa [registeredFor, usedFor, Ne.symm same] using serves.in_turn program
  served before c used answer h := by
    rcases List.prefix_concat_iff.mp h with last | earlier
    · cases (List.append_inj' last rfl).2
    · exact serves.served before c used answer earlier
  history := by simpa [commandsOf, Script.expect] using serves.history

theorem ServesInTurn.start (serves : s.ServesInTurn log) (c : Command) :
    (s.start c).1.ServesInTurn (log ++ [started c (s.due? c) (s.start c).2]) where
  in_turn program := by
    have queue := serves.in_turn program
    obtain ⟨after, due⟩ := s.queue_start c
    rw [after, due]
    by_cases same : program = c.program
    · subst same
      rw [Function.update_self]
      cases here : s.queue c.program <;>
        simpa [registeredFor, usedFor, here] using queue
    · rw [Function.update_of_ne same]
      simpa [registeredFor, usedFor, Ne.symm same] using queue
  served before c' used answer h := by
    rcases List.prefix_concat_iff.mp h with last | earlier
    · obtain ⟨rfl, eq⟩ := List.append_inj' last rfl
      cases eq
      refine ⟨?_, (s.answer_start c).1⟩
      rw [(s.queue_start c).2, serves.in_turn, List.getElem?_append_right le_rfl, Nat.sub_self,
        List.head?_eq_getElem?]
    · exact serves.served before c' used answer earlier
  history := by
    rw [(s.answer_start c).2, serves.history]
    simp [commandsOf]

end Script

/-! ### Launchers and their handles -/

/-- Scripted launchers, and the handles that lead to them. -/
structure Launchers where
  scripts : List Script := []
  /-- The number of the launcher that each handle leads to. -/
  handles : List Nat := []

namespace Launchers

/-- Something that is done with a handle, or to get one. -/
inductive Deed where
  /-- A new launcher, and a handle that leads to it. -/
  | create
  /-- Another handle that leads to the same launcher. -/
  | clone (handle : Nat)
  | expect (handle : Nat) (e : Expectation)
  | start (handle : Nat) (c : Command)

/-- The launcher that a handle leads to, with its number. -/
def reach? (l : Launchers) (handle : Nat) : Option (Nat × Script) := do
  let k ← l.handles[handle]?
  let s ← l.scripts[k]?
  return (k, s)

/-- The launchers after a deed, and what happened to which of them.  Nothing can be done with a
handle that there is not. -/
def act (l : Launchers) : Deed → Launchers × List (Nat × ScriptEvent)
  | .create => (⟨l.scripts ++ [{}], l.handles ++ [l.scripts.length]⟩, [])
  | .clone handle =>
    match l.handles[handle]? with
    | some k => ({ l with handles := l.handles ++ [k] }, [])
    | none => (l, [])
  | .expect handle e =>
    match l.reach? handle with
    | some (k, s) => ({ l with scripts := l.scripts.set k (s.expect e) }, [(k, .expected e)])
    | none => (l, [])
  | .start handle c =>
    match l.reach? handle with
    | some (k, s) =>
      ({ l with scripts := l.scripts.set k (s.start c).1 },
        [(k, .started c (s.due? c) (s.start c).2)])
    | none => (l, [])

/-- Deeds done in their order, with what happened in them. -/
def run (deeds : List Deed) : Launchers × List (Nat × ScriptEvent) :=
  deeds.foldl (fun (l, log) deed => ((l.act deed).1, log ++ (l.act deed).2)) ({}, [])

/-- What happened to one of the launchers. -/
def eventsOf (k : Nat) (log : List (Nat × ScriptEvent)) : List ScriptEvent :=
  (log.filter (·.1 = k)).map (·.2)

variable {l : Launchers} {log : List (Nat × ScriptEvent)} {handle k : Nat} {s : Script}

theorem run_concat (deeds : List Deed) (deed : Deed) :
    run (deeds ++ [deed]) =
      (((run deeds).1.act deed).1, (run deeds).2 ++ ((run deeds).1.act deed).2) := by
  rw [run, List.foldl_append]
  rfl

theorem reach?_eq_some (reached : l.reach? handle = some (k, s)) :
    l.handles[handle]? = some k ∧ l.scripts[k]? = some s := by
  simp only [reach?, Option.bind_eq_bind, Option.bind_eq_some_iff] at reached
  obtain ⟨k', here, s', there, eq⟩ := reached
  cases eq
  exact ⟨here, there⟩

/-- A handle leads to the same launcher for ever. -/
theorem handles_prefix_act (l : Launchers) (deed : Deed) :
    l.handles <+: (l.act deed).1.handles := by
  cases deed with
  | create => exact List.prefix_append _ _
  | clone handle =>
    rw [act]
    split
    · exact List.prefix_append _ _
    · exact List.prefix_rfl
  | expect | start =>
    rw [act]
    split <;> exact List.prefix_rfl

/-- A cloned handle leads to the same launcher. -/
theorem handles_act_clone (here : l.handles[handle]? = some k) :
    (l.act (.clone handle)).1.handles[l.handles.length]? = some k := by
  simp [act, here]

/-- Every launcher has served in turn, and nothing has happened to launchers that there are not. -/
structure AllServe (l : Launchers) (log : List (Nat × ScriptEvent)) : Prop where
  serves : ∀ (k : Nat) (s : Script), l.scripts[k]? = some s → s.ServesInTurn (eventsOf k log)
  known : ∀ x ∈ log, x.1 < l.scripts.length

namespace AllServe

/-- A new launcher has nothing behind it. -/
theorem create (all : l.AllServe log) (handles : List Nat) :
    AllServe ⟨l.scripts ++ [({} : Script)], handles⟩ log where
  serves k s here := by
    rcases Nat.lt_or_ge k l.scripts.length with old | new
    · rw [List.getElem?_append_left old] at here
      exact all.serves k s here
    · rw [List.getElem?_append_right new, List.getElem?_singleton] at here
      split at here
      · next first =>
        cases here
        obtain rfl : k = l.scripts.length := by omega
        have untouched : eventsOf l.scripts.length log = [] := by
          simpa [eventsOf] using fun j event mem => Nat.ne_of_lt (all.known (j, event) mem)
        rw [untouched]
        exact Script.servesInTurn_nil
      · cases here
  known x mem := by
    have before := all.known x mem
    rw [List.length_append]
    omega

/-- What happens to one launcher does not concern the others. -/
theorem set (all : l.AllServe log) (here : l.scripts[k]? = some s) {next : Script}
    {event : ScriptEvent}
    (goes_on : ∀ log, s.ServesInTurn log → next.ServesInTurn (log ++ [event])) :
    AllServe { l with scripts := l.scripts.set k next } (log ++ [(k, event)]) where
  serves j t there := by
    have within : k < l.scripts.length := (List.getElem?_eq_some_iff.mp here).1
    by_cases same : k = j
    · subst same
      rw [List.getElem?_set_self within, Option.some.injEq] at there
      subst there
      have later : eventsOf k (log ++ [(k, event)]) = eventsOf k log ++ [event] := by
        simp [eventsOf]
      rw [later]
      exact goes_on _ (all.serves k s here)
    · rw [List.getElem?_set_ne same] at there
      have untouched : eventsOf j (log ++ [(k, event)]) = eventsOf j log := by
        simp [eventsOf, same]
      rw [untouched]
      exact all.serves j t there
  known x mem := by
    rw [List.length_set]
    rcases List.mem_append.mp mem with old | new
    · exact all.known x old
    · rw [List.mem_singleton.mp new]
      exact (List.getElem?_eq_some_iff.mp here).1

/-- Every deed keeps all launchers serving in turn. -/
theorem act (all : l.AllServe log) (deed : Deed) :
    (l.act deed).1.AllServe (log ++ (l.act deed).2) := by
  cases deed with
  | create =>
    rw [Launchers.act, List.append_nil]
    exact all.create _
  | clone handle =>
    rw [Launchers.act]
    split <;>
    · rw [List.append_nil]
      exact ⟨all.serves, all.known⟩
  | expect handle e =>
    rw [Launchers.act]
    split
    · next k s reached =>
      exact all.set (reach?_eq_some reached).2 fun _ serves => serves.expect e
    · rw [List.append_nil]
      exact all
  | start handle c =>
    rw [Launchers.act]
    split
    · next k s reached =>
      exact all.set (reach?_eq_some reached).2 fun _ serves => serves.start c
    · rw [List.append_nil]
      exact all

end AllServe

theorem allServe_run (deeds : List Deed) : (run deeds).1.AllServe (run deeds).2 := by
  induction deeds using List.reverseRecOn with
  | nil => exact ⟨by simp [run], by simp [run]⟩
  | append_singleton deeds deed ih =>
    rw [run_concat]
    exact ih.act deed

/-- **A scripted launcher is one queue for each program.**  Whatever a script holds, registering
and starting do to it what they do to a queue for each program, and a start takes out the first
expectation for its program and leaves the others where they are.  Handles lead to one launcher
each, for ever, and their clones to the same one.  And whatever is done with any handles, in any
order, each launcher uses up the expectations for each program in the order in which they were
registered, each of them once, and has noted down all commands. -/
theorem serve_each_program_in_turn :
    (∀ s : Script, s.ActsAsQueues) ∧
    (∀ (s : Script) (c : Command), s.Starts c (s.due? c) (s.start c).1 (s.start c).2) ∧
    (∀ (l : Launchers) (deed : Deed), l.handles <+: (l.act deed).1.handles) ∧
    (∀ (l : Launchers) (handle k : Nat), l.handles[handle]? = some k →
      (l.act (.clone handle)).1.handles[l.handles.length]? = some k) ∧
    ∀ (deeds : List Deed) (k : Nat) (s : Script), (run deeds).1.scripts[k]? = some s →
      s.ServesInTurn (eventsOf k (run deeds).2) := by
  refine ⟨Script.actsAsQueues, Script.starts_start, handles_prefix_act, ?_, ?_⟩
  · intro l handle k here
    exact handles_act_clone here
  · intro deeds k s here
    exact (allServe_run deeds).serves k s here

/-- Two launchers, the first with two handles; of its two programs one is started three times. -/
def shared : List Deed :=
  [.create, .clone 0, .create, .expect 1 { program := "cdk", stdout := ["first"] },
    .expect 0 { program := "npm" }, .expect 0 { program := "cdk", missing := true },
    .start 0 { program := "cdk" }, .start 2 { program := "cdk" }, .start 1 { program := "cdk" },
    .start 0 { program := "cdk", args := ["deploy"] }]

/-- The second handle gets what comes after what the first one got, and the other launcher has
nothing to give. -/
theorem serves_clones_in_turn :
    ∃ s t, (run shared).1.scripts = [s, t] ∧ s.queue "cdk" = [] ∧
      s.queue "npm" = [{ program := "npm" }] ∧
      s.history = [{ program := "cdk" }, { program := "cdk" },
        { program := "cdk", args := ["deploy"] }] ∧
      (ScriptEvent.usedFor "cdk" (eventsOf 0 (run shared).2)) =
        [{ program := "cdk", stdout := ["first"] }, { program := "cdk", missing := true }] ∧
      ScriptEvent.usedFor "cdk" (eventsOf 1 (run shared).2) = [] := by
  obtain ⟨-, -, -, -, serves⟩ := serve_each_program_in_turn
  have scripts : (run shared).1.scripts = [_, _] := rfl
  have first := serves shared 0 _ (by rw [scripts]; rfl)
  have second := serves shared 1 _ (by rw [scripts]; rfl)
  refine ⟨_, _, scripts, rfl, rfl, first.history, ?_, ?_⟩
  · have registered : ScriptEvent.registeredFor "cdk" (eventsOf 0 (run shared).2) =
        [{ program := "cdk", stdout := ["first"] }, { program := "cdk", missing := true }] := rfl
    exact (List.append_nil _).symm.trans ((first.in_turn "cdk").symm.trans registered)
  · have registered : ScriptEvent.registeredFor "cdk" (eventsOf 1 (run shared).2) = [] := rfl
    exact (List.append_nil _).symm.trans ((second.in_turn "cdk").symm.trans registered)

end Launchers

end DeployWatch
