/-
# The exit code of a deployment

A command line that deploys or destroys ends with exit code 0 just if its settings can be loaded
and all goes well with the use of the tool, with 2 just if its settings cannot be loaded, and with
5 in all other cases.  In none of them is a scratch directory left (`Cli.exits_as_it_went`).

The exit code does not depend on the order in which things happen during the run, only on what the
tool does.
-/

import DeployWatch.Proofs.Deploy.Draining

namespace DeployWatch

theorem SettingsFault.exitCode_toFault (f : SettingsFault) : f.toFault.exitCode = 2 := by
  cases f <;> rfl

namespace Cli

variable {σ : Type} {launch : Launcher σ} {launcher : σ} {tags : List String}
  {around : Surroundings} {config own : Option Path} {settings : Settings} {request : DeployRequest}

/-! ### The settings of a command line -/

/-- The settings of the source that decides can be read, and they can be used. -/
def Configured (around : Surroundings) (config own : Option Path) (settings : Settings) : Prop :=
  Settings.ofSource around (Settings.source config around.env own) = .ok settings ∧
    settings.validate = .ok ()

/-- Settings are loaded just if they are configured. -/
theorem load_eq_ok_iff : Settings.load around config own = .ok settings ↔
    Configured around config own settings := by
  unfold Settings.load Configured
  cases source : Settings.ofSource around (Settings.source config around.env own) with
  | error fault => simp [Bind.bind, Except.bind]
  | ok read =>
    change Settings.accept read = .ok settings ↔ _
    unfold Settings.accept
    cases valid : read.validate with
    | error flaw =>
      refine ⟨nofun, ?_⟩
      rintro ⟨same, accepted⟩
      obtain rfl := Except.ok.inj same
      rw [valid] at accepted
      cases accepted
    | ok _ =>
      constructor
      · intro same
        exact ⟨same, Except.ok.inj same ▸ valid⟩
      · exact And.left

/-! ### The use of the tool -/

/-- The way in which the program runs the tool with settings. -/
def runnerOf (launch : Launcher σ) (tags : List String) (settings : Settings) : DeployRunner σ where
  launch := launch
  tool := settings.deploy
  capacity := settings.capacity
  tags := tags

/-- Where the program runs the tool. -/
def workshopOf (launcher : σ) (around : Surroundings) : Workshop σ where
  launcher := launcher
  files := around.files
  current := around.current

/-- The report of a result. -/
def reportOf : Except Fault Unit → Report
  | .ok () => .success
  | .error fault => .ofFault fault

theorem exitCode_reportOf (result : Except Fault Unit) :
    (reportOf result).exitCode = DeployRunner.exitCodeOf result := by
  cases result <;> rfl

variable {args : List String}

theorem runWith_of_unconfigured {fault : SettingsFault}
    (read : Invocation.read args = .ok ⟨config, .deploy request⟩)
    (failed : Settings.load around config own = .error fault) :
    runWith launch launcher tags around args own = (around.files, .ofFault fault.toFault) := by
  unfold runWith runInvocation
  simp only [read, failed]

theorem runWith_of_configured (read : Invocation.read args = .ok ⟨config, .deploy request⟩)
    (loaded : Settings.load around config own = .ok settings) :
    runWith launch launcher tags around args own =
      let after := deploy (runnerOf launch tags settings) (workshopOf launcher around) request
      (after.1, reportOf after.2) := by
  rcases ran : deploy (runnerOf launch tags settings) (workshopOf launcher around) request with
    ⟨files, result⟩
  rw [runnerOf, workshopOf] at ran
  unfold runWith runInvocation runTask
  simp only [read, loaded, ran]
  cases result <;> rfl

/-- **A deployment exits as it went.**  The exit code is 0 just if the settings can be loaded and
all goes well with the use of the tool, 2 just if the settings cannot be loaded, and 5 in all other
cases.  Without settings the files stay as they are, and in all other cases no scratch directory is
left.  All this holds wherever the user's own settings file is, and in whatever order things happen
during the run. -/
theorem exits_as_it_went (launch : Launcher σ) (launcher : σ) (tags : List String)
    (around : Surroundings) (args : List String) (config own : Option Path)
    (request : DeployRequest) (read : Invocation.read args = .ok ⟨config, .deploy request⟩) :
    let after := runWith launch launcher tags around args own
    (after.2.exitCode = 0 ↔ ∃ settings, Configured around config own settings ∧
      (runnerOf launch tags settings).GoesWell (workshopOf launcher around) request) ∧
    (after.2.exitCode = 2 ↔ ¬ ∃ settings, Configured around config own settings) ∧
    (after.2.exitCode = 5 ↔ ∃ settings, Configured around config own settings ∧
      ¬ (runnerOf launch tags settings).GoesWell (workshopOf launcher around) request) ∧
    ((¬ ∃ settings, Configured around config own settings) → after.1 = around.files) ∧
    ∀ settings, Configured around config own settings →
      (runnerOf launch tags settings).TidiedUp (workshopOf launcher around) request after.1 ∧
      ∀ files result, (runnerOf launch tags settings).Drains (workshopOf launcher around) request
          files result →
        (runnerOf launch tags settings).TidiedUp (workshopOf launcher around) request files ∧
        (reportOf result).exitCode = after.2.exitCode := by
  classical
  intro after
  cases loaded : Settings.load around config own with
  | error fault =>
    have unconfigured (settings : Settings) : ¬ Configured around config own settings := by
      intro configured
      rw [← load_eq_ok_iff, loaded] at configured
      cases configured
    have eq : after = (around.files, .ofFault fault.toFault) := runWith_of_unconfigured read loaded
    have exit : after.2.exitCode = 2 := by
      rw [eq]
      exact fault.exitCode_toFault
    have files : after.1 = around.files := by rw [eq]
    simp [exit, files, unconfigured]
  | ok settings =>
    have configured : Configured around config own settings := load_eq_ok_iff.mp loaded
    have same {s : Settings} (h : Configured around config own s) : s = settings :=
      (Except.ok.inj ((load_eq_ok_iff.mpr h).symm.trans loaded))
    have only {P : Settings → Prop} : (∃ s, Configured around config own s ∧ P s) ↔ P settings := by
      constructor
      · rintro ⟨s, h, holds⟩
        exact same h ▸ holds
      · exact fun holds => ⟨settings, configured, holds⟩
    have some : ∃ s, Configured around config own s := ⟨settings, configured⟩
    have drained := DeployRunner.drains_deploy (runnerOf launch tags settings)
      (workshopOf launcher around) request
    have eq : after = _ := runWith_of_configured read loaded
    have code : after.2.exitCode = if (runnerOf launch tags settings).GoesWell
        (workshopOf launcher around) request then 0 else 5 := by
      rw [eq, exitCode_reportOf, drained.exitCodeOf_eq]
    refine ⟨?_, ?_, ?_, fun none => absurd some none, fun settings' h => ?_⟩
    · rw [only, code]
      split_ifs with well <;> simp [well]
    · rw [code]
      split_ifs <;> simp [some]
    · rw [only, code]
      split_ifs with well <;> simp [well]
    · obtain rfl := same h
      constructor
      · rw [eq]
        exact drained.tidiedUp
      · intro files result drains
        rw [exitCode_reportOf, drains.exitCodeOf_eq, code]
        exact ⟨drains.tidiedUp, rfl⟩

/-- An app in a directory, without any settings. -/
def appAlone : Surroundings where
  files := ⟨[(["app"], .directory)]⟩
  current := []
  env := []

/-- A tool that prints a line, and exits with this status or is missing. -/
def printing (exit : Exit) (missing : Bool) : Script :=
  ({} : Script).expect { program := "cdk", stdout := ["app | 1/1 | done"], exit, missing }

/-- A way of starting scripted tools that write a file into the fresh directory of the app. -/
def intoFresh : Launcher Script := fun s files c =>
  ((s.start c).1, files.put ["app", ".hoist-out-1", "x"] (.file []), (s.start c).2)

/-- The request to destroy the app. -/
def destroyApp : DeployRequest := { operation := .destroy, dir := ⟨"app"⟩ }

theorem succeeds_process {e : Expectation} (exit : e.exit = .success) : e.process.Succeeds where
  stdout f := by simp [Expectation.process]
  stderr f := by simp [Expectation.process]
  exit := congrArg Except.ok exit

/-- The app is destroyed, or the tool fails, or there is no tool, or a settings file is named that
does not exist.  The fresh directory is gone in the end, with what the tool has written into it. -/
theorem exits_as_destroying_went :
    (let after := runWith intoFresh (printing .success false) ["1"] appAlone
      ["destroy", "-C", "app"] none
    after.2.exitCode = 0 ∧
      ∀ place, ["app", ".hoist-out-1"] <+: place → after.1.get? place = none) ∧
    (runWith intoFresh (printing (.code 3) false) ["1"] appAlone
      ["destroy", "-C", "app"] none).2.exitCode = 5 ∧
    (runWith Script.launcher (printing .success true) ["1"] appAlone
      ["destroy", "-C", "app"] none).2.exitCode = 5 ∧
    (runWith Script.launcher (printing .success false) ["1"] appAlone
      ["destroy", "-C", "app", "--config", "none.toml"] none).2.exitCode = 2 := by
  have read : Invocation.read ["destroy", "-C", "app"] = .ok ⟨none, .deploy destroyApp⟩ := by
    decide +kernel
  have read' : Invocation.read ["destroy", "-C", "app", "--config", "none.toml"] =
      .ok ⟨some ⟨"none.toml"⟩, .deploy destroyApp⟩ := by
    decide +kernel
  have configured : Configured appAlone none none {} := ⟨rfl, rfl⟩
  refine ⟨?_, ?_, ?_, ?_⟩
  · obtain ⟨zero, -, -, -, tidy⟩ := exits_as_it_went intoFresh (printing .success false) ["1"]
      appAlone _ none none destroyApp read
    constructor
    · exact zero.mpr ⟨{}, configured, _, _, _, rfl, rfl, succeeds_process rfl⟩
    · intro place below
      have aims : FileTree.aim [] ⟨"/app/.hoist-out-1"⟩ = ["app", ".hoist-out-1"] := by
        decide +kernel
      refine (tidy {} configured).1.cleared _ ⟨"/app/.hoist-out-1"⟩ rfl (.inl rfl) (.inl ?_)
        place ?_
      · decide +kernel
      · exact aims ▸ below
  · obtain ⟨-, -, five, -, -⟩ := exits_as_it_went intoFresh (printing (.code 3) false) ["1"]
      appAlone _ none none destroyApp read
    refine five.mpr ⟨{}, configured, ?_⟩
    rintro ⟨made, scratch, process, -, starts, succeeds⟩
    obtain rfl := Except.ok.inj starts
    exact nomatch succeeds.exit
  · obtain ⟨-, -, five, -, -⟩ := exits_as_it_went Script.launcher (printing .success true) ["1"]
      appAlone _ none none destroyApp read
    refine five.mpr ⟨{}, configured, ?_⟩
    rintro ⟨made, scratch, process, -, starts, -⟩
    exact nomatch starts
  · obtain ⟨-, two, -, -, -⟩ := exits_as_it_went Script.launcher (printing .success false) ["1"]
      appAlone _ _ none destroyApp read'
    refine two.mpr ?_
    rintro ⟨settings, read, -⟩
    exact nomatch read

end Cli

end DeployWatch
