/-
# Scratch directories

The deployment tool writes its output into a directory that is removed after the run.  A
request may name it; otherwise a fresh one is made in the directory of the app.
-/

import DeployWatch.Deploy.Request
import DeployWatch.Fault.Basic
import DeployWatch.Files.Tree
import DeployWatch.Text.Literal

namespace DeployWatch.Scratch

/-- How the names of fresh directories begin. -/
def stem : String := ".hoist-out-"

/-- A path seen from the root. -/
def absolute (current : Location) (p : Path) : Path :=
  (Path.ofNames true current).join p

/-- Why no scratch directory could be made. -/
def fault (dir : Path) (reason : String) : Fault :=
  { category := .execution none
    code := Code.execGeneric
    message := "failed to create scratch directory " ++ dir.text
    causes := [reason] }

/-- The system's refusal to make a fresh directory, with the place where it should be. -/
def refusalAt (e : FileError) (place : Path) : String :=
  e.text ++ " at path " ++ Text.Literal.quoted place.text

/-- Makes a fresh directory below another one, under the first of some tags that is free. -/
def makeFresh (files : FileTree) (current : Location) (dir : Path) :
    List String → FileTree × Except Fault Path
  | [] => (files, .error (fault dir FileError.alreadyExists.text))
  | tag :: tags =>
    let place := (absolute current dir).join ⟨stem ++ tag⟩
    match files.makeDirectory current place with
    | .ok files => (files, .ok place)
    | .error .alreadyExists => makeFresh files current dir tags
    | .error e => (files, .error (fault dir (refusalAt e place)))

/-- The directory that a request names for its output, seen from the current directory. -/
def named (r : DeployRequest) (output : Path) : Path :=
  if output.isAbsolute then output else r.dir.join output

/-- Makes the scratch directory of a request. -/
def prepare (files : FileTree) (current : Location) (tags : List String) (r : DeployRequest) :
    FileTree × Except Fault Path :=
  match r.output with
  | some output =>
    let dir := named r output
    match files.makeDirectories current dir with
    | (files, .ok ()) => (files, .ok dir)
    | (files, .error e) => (files, .error (fault dir e.text))
  | none => makeFresh files current r.dir tags

end DeployWatch.Scratch
