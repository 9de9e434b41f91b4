/-
# The program

The outer layer of the program.  It makes a picture of the current directory and of the
settings files, runs the command line on the picture, brings the differences back to the
current directory, and prints what the program reports.
-/

import DeployWatch.Cli.Run

namespace DeployWatch.Outer

/-- Runs an action that may be refused. -/
def attempt? {α : Type} (action : IO α) : IO (Option α) := do
  try return some (← action)
  catch _ => return none

/-! ## Making the picture -/

/-- How many directories deep the picture goes. -/
def depth : Nat := 24

/-- Adds everything below a directory to a picture, at most so many directories deep. -/
def addBelow (place : Location) (directory : IO.FS.DirEntry) :
    Nat → FileTree → IO FileTree
  | 0, files => return files
  | depth + 1, files => do
    let entries ← attempt? directory.path.readDir
    (entries.getD #[]).foldlM (fun files entry => do
      let inner := place ++ [entry.fileName]
      if ← entry.path.isDir then addBelow inner entry depth (files.put inner .directory)
      else match ← attempt? (IO.FS.readBinFile entry.path) with
        | some content => return files.put inner (.file content.toList)
        | none => return files) files

/-- The directories above a place, the outermost first. -/
def above (place : Location) : List Location :=
  ((List.range place.length).map place.take).filter (· ≠ [])

/-- Adds directories to a picture. -/
def addDirectories (files : FileTree) (places : List Location) : FileTree :=
  places.foldl (fun files place =>
    if files.isDirectory place then files else files.put place .directory) files

/-- Adds a file to a picture, with the directories above it. -/
def addFile (files : FileTree) (place : Location) : IO FileTree := do
  match ← attempt? (IO.FS.readBinFile (Path.ofNames true place).text) with
  | some content =>
    return (addDirectories files (above place)).put place (.file content.toList)
  | none => return files

/-- The variables that the program and its tools look at. -/
def variableNames : List String :=
  ["HOME", "PATH", "XDG_CONFIG_HOME", Settings.pathVariable]

/-- The variables that are set. -/
def environment : IO (List (String × String)) :=
  variableNames.filterMapM fun name => do
    return (← IO.getEnv name).map fun value => (name, value)

/-- The settings files that a command line may lead to. -/
def settingsPaths (env : List (String × String)) (args : List String) : List Path :=
  let given := match Cli.Invocation.read args with
    | .ok invocation => invocation.config
    | .error _ => none
  match Settings.source given env with
  | .required path => [path]
  | .optional path => [path]
  | .defaults => []

/-- The picture for a command line. -/
def picture (args : List String) : IO Surroundings := do
  let directory ← IO.currentDir
  let current := (Path.mk directory.toString).names
  let env ← environment
  let around := addDirectories {} (above current ++ [current])
  let files ← addBelow current { root := directory, fileName := "." } depth around
  let files ← (settingsPaths env args).foldlM (fun files path =>
    addFile files ((Path.ofNames true current).join path).names) files
  return ⟨files, current, env⟩

/-! ## Bringing back what changed -/

/-- Writes one entry of a picture. -/
def writeBack (place : Location) (node : FileNode) : IO Unit := do
  let path := (Path.ofNames true place).text
  match node with
  | .directory => IO.FS.createDirAll path
  | .file content => IO.FS.writeBinFile path ⟨content.toArray⟩

/-- Removes what a place held. -/
def removeAt (place : Location) (node : FileNode) : IO Unit := do
  let path := (Path.ofNames true place).text
  match node with
  | .directory => IO.FS.removeDir path
  | .file _ => IO.FS.removeFile path

/-- Makes the current directory look like a picture that was changed.  What was taken out is
removed from the inside outwards. -/
def bringBack (current : Location) (old new : FileTree) : IO Unit := do
  let inside (entry : Location × FileNode) : Bool := current.isPrefixOf entry.1
  for entry in (old.entries.filter inside).reverse do
    if (new.get? entry.1).isNone then
      discard (attempt? (removeAt entry.1 entry.2))
  for entry in new.entries.filter inside do
    if old.get? entry.1 ≠ some entry.2 then
      discard (attempt? (writeBack entry.1 entry.2))

/-! ## Running -/

/-- The characters of the tags of fresh directories. -/
def tagChars : List Char :=
  "ABCDEFGHIJKLMNOPQRSTUVWXYZabcdefghijklmnopqrstuvwxyz0123456789".toList

/-- A tag for a fresh directory. -/
def randomTag : IO String := do
  let chars ← (List.range 6).mapM fun _ => do
    return tagChars[← IO.rand 0 (tagChars.length - 1)]?.getD 'a'
  return String.ofList chars

/-- Runs the program. -/
def run (args : List String) : IO UInt32 := do
  let around ← picture args
  let tags ← (List.range 16).mapM fun _ => randomTag
  let (files, report) := Cli.run tags around args
  bringBack around.current around.files files
  IO.print report.stdout
  IO.eprint report.stderr
  return UInt32.ofNat report.exitCode

end DeployWatch.Outer

/-- Runs the program on its command line. -/
def main (args : List String) : IO UInt32 := DeployWatch.Outer.run args
