/-
# The status of a stack

The provider names the status of a stack.  Three names speak of its deletion; every other
name is kept as it is.
-/

namespace DeployWatch

/-- The status of a stack. -/
inductive StackStatus where
  | deleteInProgress
  | deleteComplete
  | deleteFailed
  /-- A status that does not speak of a deletion, under the provider's name. -/
  | other (name : String)
  deriving DecidableEq, Repr, Inhabited

namespace StackStatus

/-- The status that the provider calls by a name. -/
def ofName (name : String) : StackStatus :=
  if name = "DELETE_IN_PROGRESS" then deleteInProgress
  else if name = "DELETE_COMPLETE" then deleteComplete
  else if name = "DELETE_FAILED" then deleteFailed
  else other name

/-- The provider's name for a status. -/
def name : StackStatus → String
  | deleteInProgress => "DELETE_IN_PROGRESS"
  | deleteComplete => "DELETE_COMPLETE"
  | deleteFailed => "DELETE_FAILED"
  | other name => name

theorem name_ofName (s : String) : (ofName s).name = s := by
  unfold ofName; split
  · simp_all [name]
  · split
    · simp_all [name]
    · split <;> simp_all [name]

end StackStatus

end DeployWatch
