/-
# File trees

The files and directories that the program can see, as a value.  A location is the list of
names that leads to it from the root; the root itself is always a directory.  Every operation
takes the current directory and a path, resolves the path one name after the other, and
either gives the changed tree or says why the system refuses.
-/

import DeployWatch.Files.Path

namespace DeployWatch

/-- Why the system refuses an operation on files. -/
inductive FileError where
  | notFound
  | denied
  | alreadyExists
  | notDirectory
  | isDirectory
  | invalid
  | nameTooLong
  | notEmpty
  deriving DecidableEq, Repr, Inhabited

/-- The system's words for a refusal. -/
def FileError.text : FileError → String
  | notFound => "No such file or directory (os error 2)"
  | denied => "Permission denied (os error 13)"
  | alreadyExists => "File exists (os error 17)"
  | notDirectory => "Not a directory (os error 20)"
  | isDirectory => "Is a directory (os error 21)"
  | invalid => "Invalid argument (os error 22)"
  | nameTooLong => "File name too long (os error 36)"
  | notEmpty => "Directory not empty (os error 39)"

/-- The names that lead from the root to a place. -/
abbrev Location := List String

/-- What stands at a place. -/
inductive FileNode where
  | directory
  | file (content : List UInt8)
  deriving DecidableEq, Repr, Inhabited

/-- The files and directories below the root. -/
structure FileTree where
  entries : List (Location × FileNode) := []
  deriving DecidableEq, Repr, Inhabited

namespace FileTree

/-- What stands at a location. -/
def get? (t : FileTree) (place : Location) : Option FileNode :=
  if place = [] then some .directory else t.entries.lookup place

/-- A directory stands at a location. -/
def isDirectory (t : FileTree) (place : Location) : Bool := t.get? place == some .directory

/-- The tree with something put at a location, in place of what stood there. -/
def put (t : FileTree) (place : Location) (node : FileNode) : FileTree :=
  ⟨t.entries.filter (·.1 ≠ place) ++ [(place, node)]⟩

/-- The tree without a location and everything below it. -/
def prune (t : FileTree) (place : Location) : FileTree :=
  ⟨t.entries.filter fun entry => !place.isPrefixOf entry.1⟩

/-- The tree without everything below a location. -/
def clear (t : FileTree) (place : Location) : FileTree :=
  ⟨t.entries.filter fun entry => entry.1 = place || !place.isPrefixOf entry.1⟩

/-- The names in a directory, in the order of the tree. -/
def children (t : FileTree) (place : Location) : List String :=
  t.entries.filterMap fun entry =>
    if entry.1.dropLast = place then entry.1.getLast? else none

/-! ## Looking up paths -/

/-- The longest name that the system takes, in bytes. -/
def maxName : Nat := 255

/-- Follows names from a location.  Every place on the way must be a directory. -/
def walk (t : FileTree) (place : Location) : List String → Except FileError Location
  | [] => .ok place
  | name :: rest =>
    if !t.isDirectory place then .error .notDirectory
    else if name = "." then t.walk place rest
    else if name = ".." then t.walk place.dropLast rest
    else if name.utf8ByteSize > maxName then .error .nameTooLong
    else match t.get? (place ++ [name]) with
      | none => .error .notFound
      | some _ => t.walk (place ++ [name]) rest

/-- The location where a path starts. -/
def start (current : Location) (p : Path) : Location := if p.isAbsolute then [] else current

/-- The location of something that exists.  A slash at the end asks for a directory. -/
def locate (t : FileTree) (current : Location) (p : Path) : Except FileError Location :=
  if p.text.isEmpty then .error .notFound
  else t.walk (start current p) (p.names ++ if p.endsWithSlash then ["."] else [])

/-- The directory in which the last name of a path is, and that name. -/
def locateParent (t : FileTree) (current : Location) (p : Path) :
    Except FileError (Location × String) := do
  match p.names.reverse with
  | [] => .error (if p.text.isEmpty then .notFound else .alreadyExists)
  | name :: front =>
    let parent ← t.walk (start current p) front.reverse
    if !t.isDirectory parent then .error .notDirectory
    else if name.utf8ByteSize > maxName then .error .nameTooLong
    else .ok (parent, name)

/-- Something exists under a path. -/
def existsAt (t : FileTree) (current : Location) (p : Path) : Bool :=
  match t.locate current p with
  | .ok _ => true
  | .error _ => false

/-- A directory exists under a path. -/
def isDirectoryPath (t : FileTree) (current : Location) (p : Path) : Bool :=
  match t.locate current p with
  | .ok place => t.isDirectory place
  | .error _ => false

/-! ## Reading and writing -/

/-- The content of a file. -/
def contentOf (t : FileTree) (current : Location) (p : Path) : Except FileError (List UInt8) := do
  let place ← t.locate current p
  match t.get? place with
  | some (.file content) => .ok content
  | some .directory => .error .isDirectory
  | none => .error .notFound

/-- The location that a path names for a file to be written. -/
def locateForWriting (t : FileTree) (current : Location) (p : Path) :
    Except FileError Location := do
  let (parent, name) ← match t.locateParent current p with
    | .error .alreadyExists => .error .isDirectory
    | found => found
  if name = "." || name = ".." || p.endsWithSlash then .error .isDirectory
  else match t.get? (parent ++ [name]) with
    | some .directory => .error .isDirectory
    | _ => .ok (parent ++ [name])

/-- The tree with a file of this content. -/
def writeFile (t : FileTree) (current : Location) (p : Path) (content : List UInt8) :
    Except FileError FileTree := do
  return t.put (← t.locateForWriting current p) (.file content)

/-- The tree with one more directory. -/
def makeDirectory (t : FileTree) (current : Location) (p : Path) :
    Except FileError FileTree := do
  let (parent, name) ← t.locateParent current p
  if name = "." || name = ".." then .error .alreadyExists
  else match t.get? (parent ++ [name]) with
    | some _ => .error .alreadyExists
    | none => .ok (t.put (parent ++ [name]) .directory)

/-- Makes a directory and the directories above it, at most `fuel` of them.  A directory that
exists already is fine. -/
def makeDirectoriesUpTo (current : Location) :
    Nat → FileTree → Path → FileTree × Except FileError Unit
  | fuel, t, p =>
    if p.text.isEmpty then (t, .ok ())
    else match t.makeDirectory current p with
      | .ok made => (made, .ok ())
      | .error .notFound =>
        match p.parent?, fuel with
        | some parent, fuel + 1 =>
          match makeDirectoriesUpTo current fuel t parent with
          | (t, .error e) => (t, .error e)
          | (t, .ok ()) =>
            match t.makeDirectory current p with
            | .ok made => (made, .ok ())
            | .error e => if t.isDirectoryPath current p then (t, .ok ()) else (t, .error e)
        | _, _ => (t, .error .notFound)
      | .error e => if t.isDirectoryPath current p then (t, .ok ()) else (t, .error e)

/-- Makes a directory and the directories above it that are missing.  What was made before a
refusal stays. -/
def makeDirectories (t : FileTree) (current : Location) (p : Path) :
    FileTree × Except FileError Unit :=
  makeDirectoriesUpTo current p.names.length t p

/-- The names at the end of a path keep its directory from being removed itself. -/
def endsInDots (p : Path) : Bool :=
  match p.names.getLast? with
  | some name => name = "." || name = ".."
  | none => true

/-- Removes a directory and everything below it.  A path that ends in a dot or two names a
directory that can only be emptied. -/
def removeDirectory (t : FileTree) (current : Location) (p : Path) :
    Except FileError FileTree := do
  let place ← t.locate current p
  if !t.isDirectory place then .error .notDirectory
  else if endsInDots p then .ok (t.clear place)
  else .ok (t.prune place)

/-- The tree without a directory, or the tree itself if the directory cannot be removed. -/
def removeDirectoryIfPossible (t : FileTree) (current : Location) (p : Path) : FileTree :=
  match t.removeDirectory current p with
  | .ok removed => removed
  | .error _ => t

/-! ## Listings -/

/-- Inserts a name into a sorted list. -/
def insertName (name : String) : List String → List String
  | [] => [name]
  | head :: rest => if name ≤ head then name :: head :: rest else head :: insertName name rest

/-- Names in the order of their code points. -/
def sortNames (names : List String) : List String := names.foldr insertName []

/-- Everything below a directory, as paths seen from it; directories end with a slash.  None
if there is no such directory. -/
def listing? (t : FileTree) (place : Location) : Option (List String) :=
  if !t.isDirectory place then none
  else some (sortNames (t.entries.filterMap fun entry =>
    if place.isPrefixOf entry.1 && entry.1 ≠ place then
      let text := String.intercalate "/" (entry.1.drop place.length)
      some (match entry.2 with
        | .directory => text ++ "/"
        | .file _ => text)
    else none))

end FileTree

end DeployWatch
