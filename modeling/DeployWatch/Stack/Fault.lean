/-
# Faults of a stack's deletion
-/

import DeployWatch.Cloud.Fault

namespace DeployWatch

/-- Why a tracked deletion did not complete. -/
inductive DeletionFault where
  /-- The provider reports that the deletion failed. -/
  | failed
  /-- The stack is in a status that has nothing to do with a deletion. -/
  | unexpectedStatus (name : String)
  /-- The status could not be asked for. -/
  | query (cause : CloudFault)
  deriving DecidableEq, Repr, Inhabited

namespace DeletionFault

/-- The fault in words. -/
def message : DeletionFault → String
  | failed => "stack deletion failed"
  | unexpectedStatus name => "unexpected stack status while deleting: " ++ name
  | query cause => "failed to query stack status: " ++ cause.message

/-- The fault with its cause, where there is one. -/
def chain (f : DeletionFault) : List String :=
  match f with
  | query cause => [f.message, cause.message]
  | _ => [f.message]

end DeletionFault

end DeployWatch
