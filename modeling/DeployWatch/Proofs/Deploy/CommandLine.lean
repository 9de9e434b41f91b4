/-
# The tool is told what the request says

The arguments of the deployment tool can be read back from the front: the operation, then the
targets, which end at the first flag, then the profile, then the flags of an unattended run and the
output directory (`Told.read?`).  A profile and an output directory are taken as they stand, even
where they look like flags, because their places are known by then; only a target that looks like a
flag would be taken for one (`Told.read?_args`).

Which commands a use of the tool starts is seen by a launcher that takes notes
(`Launcher.noting`); it changes nothing else (`DeployRunner.execute_noting`).
-/

import DeployWatch.Proofs.Deploy.Preparation

namespace DeployWatch

open DeployWatch.Watch

/-! ### Reading the arguments -/

/-- What the deployment tool is told on its command line. -/
structure Told where
  operation : Operation
  /-- The stacks to act on; none means every stack of the app. -/
  targets : List String
  profile : Option String
  output : Path
  deriving DecidableEq, Repr

namespace Told

/-- The argument looks like a flag. -/
def isFlag (arg : String) : Bool := arg.toList.head? = some '-'

/-- The operation that a word stands for. -/
def operation? (word : String) : Option Operation :=
  [Operation.deploy, .destroy].find? (·.word = word)

/-- The targets at the head of arguments, and what follows them. -/
def readTargets : List String → List String × List String
  | "--all" :: rest => ([], rest)
  | args => (args.takeWhile (!isFlag ·), args.dropWhile (!isFlag ·))

/-- The profile at the head of arguments, if there is one, and what follows it. -/
def readProfile : List String → Option String × List String
  | "--profile" :: profile :: rest => (some profile, rest)
  | args => (none, args)

/-- The output directory at the end of arguments, behind the flags of an unattended run. -/
def readOutput (operation : Operation) (args : List String) : Option Path :=
  match args.drop operation.unattended.length with
  | ["--output", text] => some ⟨text⟩
  | _ => none

/-- What arguments tell. -/
def read? : List String → Option Told
  | [] => none
  | word :: args => do
    let operation ← operation? word
    let (targets, args) := readTargets args
    let (profile, args) := readProfile args
    let output ← readOutput operation args
    some ⟨operation, targets, profile, output⟩

theorem operation?_word (operation : Operation) : operation? operation.word = some operation := by
  cases operation <;> rfl

/-- Names of targets end where a flag begins. -/
theorem readTargets_names {targets : List String} {flag : String} {rest : List String}
    (some : targets ≠ []) (names : ∀ target ∈ targets, isFlag target = false)
    (ends : isFlag flag = true) :
    readTargets (targets ++ flag :: rest) = (targets, flag :: rest) := by
  have notAll : ∀ args, targets ++ flag :: rest ≠ "--all" :: args := by
    intro args same
    obtain ⟨target, others, rfl⟩ := List.exists_cons_of_ne_nil some
    obtain ⟨rfl, -⟩ := List.cons.inj same
    exact absurd (names "--all" List.mem_cons_self) (by decide)
  have kept : ∀ target ∈ targets, (!isFlag target) = true := by simpa using names
  unfold readTargets
  split
  · next args same => exact absurd same (notAll _)
  · rw [List.takeWhile_append_of_pos kept, List.dropWhile_append_of_pos kept]
    simp [ends]

/-- The arguments from the profile on begin with a flag. -/
theorem exists_flag_profileArgs (r : DeployRequest) (output : Path) : ∃ flag rest,
    r.profileArgs ++ r.operation.unattended ++ ["--output", output.text] = flag :: rest ∧
      isFlag flag = true := by
  unfold DeployRequest.profileArgs
  cases r.profile with
  | some profile => exact ⟨"--profile", _, rfl, by decide⟩
  | none =>
    cases r.operation with
    | deploy => exact ⟨"--require-approval", _, rfl, by decide⟩
    | destroy => exact ⟨"--force", _, rfl, by decide⟩

theorem readTargets_args {r : DeployRequest} (output : Path)
    (names : ∀ target ∈ r.targets, isFlag target = false) :
    readTargets (r.targetArgs ++
        (r.profileArgs ++ r.operation.unattended ++ ["--output", output.text])) =
      (r.targets, r.profileArgs ++ r.operation.unattended ++ ["--output", output.text]) := by
  unfold DeployRequest.targetArgs
  by_cases every : r.targets = []
  · rw [every]
    rfl
  · obtain ⟨flag, rest, begins, ends⟩ := exists_flag_profileArgs r output
    rw [if_neg (by simpa using every), begins]
    exact readTargets_names every names ends

theorem readProfile_args (r : DeployRequest) (output : Path) :
    readProfile (r.profileArgs ++ r.operation.unattended ++ ["--output", output.text]) =
      (r.profile, r.operation.unattended ++ ["--output", output.text]) := by
  unfold DeployRequest.profileArgs
  cases r.profile with
  | some profile => rfl
  | none => cases r.operation <;> rfl

theorem readOutput_args (operation : Operation) (output : Path) :
    readOutput operation (operation.unattended ++ ["--output", output.text]) = some output := by
  unfold readOutput
  rw [List.drop_left]
  rfl

/-- The arguments of a request tell all that it says, provided no target looks like a flag. -/
theorem read?_args {r : DeployRequest} (output : Path)
    (names : ∀ target ∈ r.targets, isFlag target = false) :
    read? (r.args output) = some ⟨r.operation, r.targets, r.profile, output⟩ := by
  have parts : r.args output = r.operation.word :: (r.targetArgs ++
      (r.profileArgs ++ r.operation.unattended ++ ["--output", output.text])) := by
    simp [DeployRequest.args]
  rw [parts, read?, operation?_word, readTargets_args output names]
  simp only [Option.bind_eq_bind, Option.bind_some, readProfile_args, readOutput_args]

end Told

/-- The word for all targets stands behind the operation just if the request names none. -/
theorem DeployRequest.args_all_iff {r : DeployRequest} (output : Path)
    (names : ∀ target ∈ r.targets, Told.isFlag target = false) :
    (r.args output)[1]? = some "--all" ↔ r.targets = [] := by
  have second : (r.args output)[1]? = r.targetArgs.head? := by
    unfold args targetArgs
    cases r.targets <;> rfl
  rw [second]
  unfold targetArgs
  cases named : r.targets with
  | nil => simp
  | cons target others =>
    have name : Told.isFlag target = false := names target (by rw [named]; exact List.mem_cons_self)
    suffices target ≠ "--all" by simpa
    rintro rfl
    exact absurd name (by decide)

/-! ### The commands of a use of the tool -/

variable {σ σ' : Type}

/-- The launcher that also notes every command, the latest at the end. -/
def Launcher.noting (launch : Launcher σ) : Launcher (σ × List Command) :=
  fun state files c =>
    let after := launch state.1 files c
    ((after.1, state.2 ++ [c]), after.2)

namespace DeployRunner

/-- The runner whose launcher takes notes. -/
def noting (d : DeployRunner σ) : DeployRunner (σ × List Command) where
  launch := Launcher.noting d.launch
  tool := d.tool
  capacity := d.capacity
  tags := d.tags

/-- The place of a deployment before anything was noted. -/
def unnoted (w : Workshop σ) : Workshop (σ × List Command) where
  launcher := (w.launcher, [])
  files := w.files
  current := w.current

/-- The commands that a use of the tool starts. -/
def commands (d : DeployRunner σ) (w : Workshop σ) (r : DeployRequest) : List Command :=
  (d.noting.execute (unnoted w) r).1.launcher.2

variable {d : DeployRunner σ} {w : Workshop σ} {r : DeployRequest}

/-- Taking notes changes nothing but the notes. -/
theorem runWith_noting (d : DeployRunner σ) (w : Workshop σ) (dir : Path) (args : List String)
    (scratch : Option Path) :
    d.noting.runWith (unnoted w) dir args scratch =
      let after := d.runWith w dir args scratch
      ({ launcher := (after.1.launcher, [d.command dir args])
         files := after.1.files
         current := after.1.current }, after.2) := by
  rcases launched : d.launch w.launcher w.files (d.command dir args) with ⟨launcher, files, result⟩
  have noted : d.noting.launch (unnoted w).launcher (unnoted w).files (d.noting.command dir args) =
      ((launcher, [d.command dir args]), files, result) := by
    show Launcher.noting d.launch (w.launcher, []) w.files (d.command dir args) = _
    rw [Launcher.noting, launched]
    rfl
  unfold runWith
  simp only [noted, launched]
  cases result <;> rfl

/-- A use of the tool whose launcher takes notes gives the same result and the same files, and the
one command is noted if there is a scratch directory. -/
theorem execute_noting (d : DeployRunner σ) (w : Workshop σ) (r : DeployRequest) :
    (d.noting.execute (unnoted w) r).2 = (d.execute w r).2 ∧
    (d.noting.execute (unnoted w) r).1.files = (d.execute w r).1.files ∧
    d.commands w r = match d.prepared w r with
      | (_, .ok scratch) => [d.commandFor r scratch]
      | (_, .error _) => [] := by
  have same : Scratch.prepare w.files w.current d.tags (d.completed r) = d.prepared w r := rfl
  have same' : Scratch.prepare (unnoted w).files (unnoted w).current d.noting.tags
      (d.noting.completed r) = d.prepared w r := rfl
  unfold commands execute
  simp only [same, same']
  rcases d.prepared w r with ⟨made, fault | scratch⟩
  · exact ⟨rfl, rfl, rfl⟩
  · have noted := runWith_noting d { w with files := made } (d.completed r).dir
      ((d.completed r).args scratch) (some scratch)
    change d.noting.runWith { unnoted w with files := made } _ _ _ = _ at noted
    have completed : d.noting.completed r = d.completed r := rfl
    simp only [completed, noted]
    rcases d.runWith { w with files := made } (d.completed r).dir ((d.completed r).args scratch)
      (some scratch) with ⟨after, fault | net⟩
    · exact ⟨rfl, rfl, rfl⟩
    · exact ⟨rfl, rfl, rfl⟩

/-- What the tool is to be told for a request.  The request's own profile comes before the
configured one. -/
def tells (d : DeployRunner σ) (r : DeployRequest) (scratch : Path) : Told where
  operation := r.operation
  targets := r.targets
  profile := r.profile.or d.tool.profile
  output := scratch

variable {d : DeployRunner σ} {w : Workshop σ} {r : DeployRequest} {c : Command}

/-- A command that a use of the tool starts says what the request says. -/
structure Conveys (d : DeployRunner σ) (w : Workshop σ) (r : DeployRequest) (c : Command) :
    Prop where
  /-- No other command is started. -/
  only : d.commands w r = [c]
  program : c.program = d.tool.program
  dir : c.dir = some r.dir
  /-- The directory that was made for the output is the one that the tool is told. -/
  told : ∃ made scratch, d.prepared w r = (made, .ok scratch) ∧
    (∀ output, r.output = some output → scratch = Scratch.named r output) ∧
    Told.read? c.args = some (d.tells r scratch)
  all_iff : c.args[1]? = some "--all" ↔ r.targets = []

theorem conveys_of_started (started : c ∈ d.commands w r)
    (names : ∀ target ∈ r.targets, Told.isFlag target = false) : Conveys d w r c := by
  obtain ⟨-, -, commands_eq⟩ := execute_noting d w r
  rw [commands_eq] at started
  rcases prep : d.prepared w r with ⟨made, fault | scratch⟩
  · rw [prep] at started
    exact absurd started List.not_mem_nil
  · rw [prep] at started commands_eq
    obtain rfl : c = d.commandFor r scratch := List.mem_singleton.mp started
    refine ⟨commands_eq, rfl, rfl, ⟨made, scratch, prep, ?_, ?_⟩, ?_⟩
    · exact (Scratch.prepared_of_prepare prep).named
    · exact Told.read?_args (r := d.completed r) scratch names
    · exact DeployRequest.args_all_iff (r := d.completed r) scratch names

/-- **The tool's command line says what the request says.**  Whatever the profile and the output
directory are, the operation, the targets, the profile and the output directory can be read back
from the arguments alone, provided no target looks like a flag.  So two such requests, even of
different runners, that give the same arguments agree in all of these. -/
theorem command_line_tells_request (d : DeployRunner σ) (w : Workshop σ) (r : DeployRequest)
    (c : Command) (started : c ∈ d.commands w r)
    (names : ∀ target ∈ r.targets, Told.isFlag target = false) :
    Conveys d w r c ∧
    ∀ (d' : DeployRunner σ') (w' : Workshop σ') (r' : DeployRequest) (c' : Command),
      c' ∈ d'.commands w' r' → (∀ target ∈ r'.targets, Told.isFlag target = false) →
      c'.args = c.args → ∃ made scratch made', d.prepared w r = (made, .ok scratch) ∧
        d'.prepared w' r' = (made', .ok scratch) ∧ d'.tells r' scratch = d.tells r scratch := by
  have conveys := conveys_of_started started names
  refine ⟨conveys, ?_⟩
  intro d' w' r' c' started' names' same
  obtain ⟨made, scratch, prep, -, told⟩ := conveys.told
  obtain ⟨made', scratch', prep', -, told'⟩ := (conveys_of_started started' names').told
  rw [same, told, Option.some.injEq] at told'
  obtain rfl : scratch = scratch' := congrArg Told.output told'
  exact ⟨made, scratch, made', prep, prep', told'.symm⟩

/-- A request with a profile and an output directory that look like flags. -/
def flagged : DeployRequest where
  operation := .destroy
  targets := ["net", "db"]
  profile := some "--all"
  dir := ⟨"/out"⟩
  output := some ⟨"--force"⟩

/-- The command for the flagged request. -/
def flaggedCommand : Command where
  program := "cdk"
  args := ["destroy", "net", "db", "--profile", "--all", "--force", "--output", "/out/--force"]
  dir := some ⟨"/out"⟩

/-- What looks like a flag is told and read back as it stands. -/
theorem flagged_command_tells_request :
    flaggedCommand ∈ scripted.commands (bench false) flagged ∧
    (∀ target ∈ flagged.targets, Told.isFlag target = false) ∧
    Conveys scripted (bench false) flagged flaggedCommand ∧
    ∀ (d' : DeployRunner Script) (w' : Workshop Script) (r' : DeployRequest) (c' : Command),
      c' ∈ d'.commands w' r' → (∀ target ∈ r'.targets, Told.isFlag target = false) →
      c'.args = flaggedCommand.args →
      r'.operation = .destroy ∧ r'.targets = ["net", "db"] ∧
        r'.profile.or d'.tool.profile = some "--all" := by
  have started : flaggedCommand ∈ scripted.commands (bench false) flagged := by decide +kernel
  have names : ∀ target ∈ flagged.targets, Told.isFlag target = false := by decide
  obtain ⟨conveys, agree⟩ :=
    command_line_tells_request scripted (bench false) flagged flaggedCommand started names
  refine ⟨started, names, conveys, ?_⟩
  intro d' w' r' c' started' names' same
  obtain ⟨-, scratch, -, -, -, told⟩ := agree d' w' r' c' started' names' same
  exact ⟨congrArg Told.operation told, congrArg Told.targets told, congrArg Told.profile told⟩

end DeployRunner

end DeployWatch
