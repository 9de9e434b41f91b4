/-
# Loading settings

One source decides about the settings.  A path given by the caller comes before the path in
the environment, and both come before the user's own file.  A path that was asked for has to
exist; the user's own file may be missing, and then the defaults hold.  Whatever is wrong with
the chosen file is reported, and no other source steps in.

Where the user's own file is, the system has to say.  Loading takes its path as an argument; the
usual answer is worked out from the environment.
-/

import DeployWatch.Files.Tree
import DeployWatch.Settings.Fault

namespace DeployWatch

open DeployWatch.Text

/-- What a running program sees around it. -/
structure Surroundings where
  files : FileTree
  /-- The directory in which relative paths start. -/
  current : Location
  /-- The environment variables. -/
  env : List (String × String)
  deriving Repr, Inhabited

namespace Settings

/-- The reason for refusing a file whose bytes are not text. -/
def notTextReason : String := "stream did not contain valid UTF-8"

/-- Reads the settings in a file, without judging them. -/
def ofFile (around : Surroundings) (path : Path) : Except SettingsFault Settings :=
  match around.files.contentOf around.current path with
  | .error e => .error (.unreadable path.text e.text)
  | .ok content =>
    match Utf8.decode? content with
    | none => .error (.unreadable path.text notTextReason)
    | some text =>
      match Settings.read (String.ofList text) with
      | .ok settings => .ok settings
      | .error rejection => .error (.rejected path.text rejection)

/-! ## Choosing a source -/

/-- The variable that names a settings file. -/
def pathVariable : String := "HOIST_CONFIG"

/-- The place of the settings file in a configuration directory. -/
def standardPlace : Path := ⟨"hoist/config.toml"⟩

/-- The home directory of the user: the one that is set, unless it is empty, else the one that
the system has on record. -/
def homeDirectory? (env : List (String × String)) (onRecord : Option Path) : Option Path :=
  match env.lookup "HOME" with
  | some home => if home.isEmpty then onRecord else some ⟨home⟩
  | none => onRecord

/-- The configuration directory of the user: the one that is set, if it is absolute, else the
usual one in the home directory. -/
def configDirectory? (env : List (String × String)) (onRecord : Option Path) : Option Path :=
  let usual := (homeDirectory? env onRecord).map (·.join ⟨".config"⟩)
  match (env.lookup "XDG_CONFIG_HOME").map Path.mk with
  | some path => if path.isAbsolute then some path else usual
  | none => usual

/-- The user's own settings file, as a rule. -/
def defaultPath? (env : List (String × String)) (onRecord : Option Path := none) : Option Path :=
  (configDirectory? env onRecord).map (·.join standardPlace)

/-- Where settings come from. -/
inductive Source where
  /-- A file that has to exist. -/
  | required (path : Path)
  /-- A file that may be missing. -/
  | optional (path : Path)
  /-- No file at all. -/
  | defaults
  deriving DecidableEq, Repr

/-- The source that decides, from the caller's path, the environment and the user's own file. -/
def source (given : Option Path) (env : List (String × String))
    (own : Option Path := defaultPath? env) : Source :=
  match given with
  | some path => .required path
  | none =>
    match env.lookup pathVariable with
    | some text => .required ⟨text⟩
    | none =>
      match own with
      | some path => .optional path
      | none => .defaults

/-- The settings of a source, not judged yet. -/
def ofSource (around : Surroundings) : Source → Except SettingsFault Settings
  | .required path =>
    if around.files.existsAt around.current path then ofFile around path
    else .error (.notFound path.text)
  | .optional path =>
    if around.files.existsAt around.current path then ofFile around path else .ok {}
  | .defaults => .ok {}

/-- Settings that can be used, or the fault of those that cannot. -/
def accept (s : Settings) : Except SettingsFault Settings :=
  match s.validate with
  | .ok () => .ok s
  | .error flaw => .error (.invalid flaw.message)

/-- Loads the settings of the source that decides. -/
def load (around : Surroundings) (given : Option Path)
    (own : Option Path := defaultPath? around.env) : Except SettingsFault Settings := do
  accept (← ofSource around (source given around.env own))

end Settings

end DeployWatch
