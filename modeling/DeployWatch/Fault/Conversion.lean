/-
# Faults from their causes

How the failure of a part of the program becomes a fault of the whole.  The message is the
part's own text in full, and the causes are the part's failure with everything behind it.
-/

import DeployWatch.Deploy.Fault
import DeployWatch.Fault.Basic
import DeployWatch.Health.Fault
import DeployWatch.Process.Fault
import DeployWatch.Settings.Fault
import DeployWatch.Stack.Fault

namespace DeployWatch

/-- An operation of the system failed. -/
def Fault.ofSystem (reason : String) : Fault :=
  (Fault.other "IO operation failed").withCauses [reason]

/-- The fault of settings that could not be loaded. -/
def SettingsFault.toFault (f : SettingsFault) : Fault :=
  let (code, path) : Code × Option String := match f with
    | .notFound path => (Code.configNotFound, some path)
    | .unreadable path _ => (Code.configPath, some path)
    | .rejected path _ => (Code.configInvalidToml, some path)
    | .invalid _ => (Code.configInvalidValue, none)
  ⟨.config path, code, f.message, f.chain⟩

/-- The fault of a request to the provider. -/
def CloudFault.toFault (f : CloudFault) : Fault :=
  let code := match f with
    | .request _ _ => Code.cloudRequestFailed
    | .notFound _ => Code.cloudNotFound
    | .unavailable _ => Code.cloudUnavailable
  ⟨.cloud, code, f.message, [f.message]⟩

/-- The fault of a process. -/
def ProcessFault.toFault (f : ProcessFault) : Fault :=
  let (code, command) : Code × Option String := match f with
    | .commandNotFound program => (Code.execCommandNotFound, some program)
    | .spawnFailed command _ => (Code.execSpawnFailed, some command)
    | .outputLost command _ => (Code.execOutput, some command)
    | .internal _ => (Code.execGeneric, none)
    | .unscripted _ => (Code.execGeneric, none)
  ⟨.execution command, code, f.message, f.chain⟩

/-- The fault of a stack's deletion. -/
def DeletionFault.toFault (f : DeletionFault) : Fault :=
  let code := match f with
    | .failed => Code.stackDeleteFailed
    | .unexpectedStatus _ => Code.stackUnexpectedStatus
    | .query _ => Code.statusQueryFailed
  ⟨.monitor, code, f.message, f.chain⟩

/-- The fault of a deployment run. -/
def DeployFault.toFault (f : DeployFault) : Fault :=
  let code := match f with
    | .exited _ => Code.execToolFailed
    | .signaled _ => Code.execSignal
    | .output _ => Code.execOutput
    | .wait _ => Code.execOutput
  ⟨.execution none, code, f.message, [f.message]⟩

/-- The fault of probing a service. -/
def HealthFault.toFault (f : HealthFault) : Fault :=
  match f with
  | .timeout .. => ⟨.monitor, Code.healthTimeout, f.message, f.chain⟩
  | .client .. => ⟨.cloud, Code.cloudRequestFailed, f.message, f.chain⟩

end DeployWatch
