/-
# Requests to deploy or destroy

A request names an operation, the stacks it is for and where it happens.  The deployment tool
is told everything on its command line.
-/

import DeployWatch.Process.Command

namespace DeployWatch

/-- What the deployment tool is asked to do. -/
inductive Operation where
  | deploy
  | destroy
  deriving DecidableEq, Repr, Inhabited

namespace Operation

/-- The word for an operation on the tool's command line. -/
def word : Operation → String
  | deploy => "deploy"
  | destroy => "destroy"

/-- Flags that keep the tool from asking back. -/
def unattended : Operation → List String
  | deploy => ["--require-approval", "never"]
  | destroy => ["--force"]

end Operation

/-- One use of the deployment tool. -/
structure DeployRequest where
  operation : Operation
  /-- The stacks to act on; none means every stack of the app. -/
  targets : List String := []
  /-- The credential profile for the tool. -/
  profile : Option String := none
  /-- The directory of the app. -/
  dir : Path
  /-- Where the tool writes its output; a fresh directory if unset. -/
  output : Option Path := none
  deriving DecidableEq, Repr, Inhabited

namespace DeployRequest

/-- Flags that name the targets. -/
def targetArgs (r : DeployRequest) : List String :=
  if r.targets.isEmpty then ["--all"] else r.targets

/-- Flags that name the profile. -/
def profileArgs (r : DeployRequest) : List String :=
  match r.profile with
  | some profile => ["--profile", profile]
  | none => []

/-- The tool's arguments when it is to write into `output`. -/
def args (r : DeployRequest) (output : Path) : List String :=
  r.operation.word :: r.targetArgs ++ r.profileArgs ++ r.operation.unattended
    ++ ["--output", output.text]

/-- A change to a request that is being put together. -/
inductive Change where
  | addTargets (names : List String)
  | setProfile (profile : String)
  | setOutput (dir : Path)
  deriving DecidableEq, Repr

/-- The request after a change. -/
def change (r : DeployRequest) : Change → DeployRequest
  | .addTargets names => { r with targets := r.targets ++ names }
  | .setProfile profile => { r with profile := some profile }
  | .setOutput dir => { r with output := some dir }

end DeployRequest

end DeployWatch
