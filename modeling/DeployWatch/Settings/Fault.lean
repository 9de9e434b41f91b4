/-
# Faults of locating and reading settings
-/

import DeployWatch.Settings.Schema

namespace DeployWatch

/-- Why no settings could be loaded. -/
inductive SettingsFault where
  /-- A file that was asked for is not there. -/
  | notFound (path : String)
  /-- The system could not read a file. -/
  | unreadable (path reason : String)
  /-- A file's text gives no settings. -/
  | rejected (path : String) (rejection : Settings.Rejection)
  /-- The settings cannot be used. -/
  | invalid (reason : String)
  deriving DecidableEq, Repr

namespace SettingsFault

/-- A rejection in words. -/
def rejectionText (rejection : Settings.Rejection) : String :=
  rejection.message?.getD "TOML parse error"

/-- The fault in words. -/
def message : SettingsFault → String
  | notFound path => "configuration file not found: " ++ path
  | unreadable path reason => "failed to read " ++ path ++ ": " ++ reason
  | rejected path rejection => "failed to parse " ++ path ++ ": " ++ rejectionText rejection
  | invalid reason => "invalid configuration: " ++ reason

/-- The fault with its cause, where there is one. -/
def chain (f : SettingsFault) : List String :=
  match f with
  | unreadable _ reason => [f.message, reason]
  | rejected _ rejection => [f.message, rejectionText rejection]
  | _ => [f.message]

end SettingsFault

end DeployWatch
