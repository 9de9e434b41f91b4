/-
# Fault codes

Every fault carries a number that scripts can test.  The thousands name the category:
configuration, execution, cloud provider, watch, and everything else.
-/

namespace DeployWatch

/-- The number of a fault. -/
abbrev Code := UInt16

namespace Code

/-! ## Configuration -/

def configGeneric : Code := 1000
def configNotFound : Code := 1001
def configInvalidToml : Code := 1002
def configInvalidValue : Code := 1005
def configPath : Code := 1006

/-! ## Execution of the deployment tool -/

def execGeneric : Code := 4000
def execCommandNotFound : Code := 4001
def execToolFailed : Code := 4003
def execSignal : Code := 4005
def execSpawnFailed : Code := 4007
def execOutput : Code := 4008

/-! ## Cloud provider -/

def cloudGeneric : Code := 6000
def cloudRequestFailed : Code := 6001
def cloudNotFound : Code := 6002
def cloudUnavailable : Code := 6003

/-! ## Watches -/

def watchGeneric : Code := 8000
def stackDeleteFailed : Code := 8001
def stackUnexpectedStatus : Code := 8002
def statusQueryFailed : Code := 8003
def logQueryFailed : Code := 8004
def healthTimeout : Code := 8005
def deployFailed : Code := 8006

/-! ## Everything else -/

def otherGeneric : Code := 9000

/-- What each registered code means. -/
def descriptions : List (Code × String) :=
  [(configGeneric, "General configuration error"),
   (configNotFound, "Configuration file not found"),
   (configInvalidToml, "Configuration file is not valid TOML"),
   (configInvalidValue, "Configuration value is out of range"),
   (configPath, "Configuration path could not be resolved"),
   (execGeneric, "General execution error"),
   (execCommandNotFound, "Deployment tool not found on PATH"),
   (execToolFailed, "Deployment tool exited with a failure code"),
   (execSignal, "Deployment tool was terminated by a signal"),
   (execSpawnFailed, "Deployment tool could not be started"),
   (execOutput, "Deployment tool output could not be read"),
   (cloudGeneric, "General cloud provider error"),
   (cloudRequestFailed, "Cloud provider request failed"),
   (cloudNotFound, "Cloud resource not found"),
   (cloudUnavailable, "Cloud service unavailable"),
   (watchGeneric, "General monitor error"),
   (stackDeleteFailed, "Stack deletion failed"),
   (stackUnexpectedStatus, "Stack reached an unexpected status"),
   (statusQueryFailed, "Stack status query failed"),
   (logQueryFailed, "Log query failed"),
   (healthTimeout, "Service did not become healthy in time"),
   (deployFailed, "Deployment run failed"),
   (otherGeneric, "General error")]

/-- The meaning of a code. -/
def describe (code : Code) : String :=
  (descriptions.lookup code).getD "Unknown error code"

end Code

end DeployWatch
