/-
# Utilities

The programs that scripts use most: listing, reading and writing files, comparing, counting.
Each takes its arguments and the shell's state, and gives the state with its output and exit
code.
-/

import DeployWatch.Shell.Escapes
import DeployWatch.Shell.Pattern
import DeployWatch.Shell.Session
import DeployWatch.Text.Lines

namespace DeployWatch.Shell

open DeployWatch.Text

/-- The words for a refusal without its number. -/
def refusalText : FileError → String
  | .notFound => "No such file or directory"
  | .denied => "Permission denied"
  | .alreadyExists => "File exists"
  | .notDirectory => "Not a directory"
  | .isDirectory => "Is a directory"
  | .invalid => "Invalid argument"
  | .nameTooLong => "File name too long"
  | .notEmpty => "Directory not empty"

/-- The letters of the options before the first other argument, and the other arguments. -/
def splitOptions : List String → List Char × List String
  | [] => ([], [])
  | arg :: rest =>
    if arg = "--" then ([], rest)
    else match arg.toList with
      | '-' :: c :: letters =>
        let (more, rest) := splitOptions rest
        (c :: letters ++ more, rest)
      | _ => ([], arg :: rest)

/-- Lines without their line ends. -/
def linesOf (bytes : List UInt8) : List (List UInt8) :=
  (Pieces.ending Lines.newline bytes).map fun line =>
    if line.getLast? = some Lines.newline then line.dropLast else line

/-- Lines with line ends. -/
def unlines (lines : List (List UInt8)) : List UInt8 := lines.flatMap (· ++ [Lines.newline])

/-- The content of a file, or what is left to be read for a dash. -/
def readInput (s : Session) (name : String) : Except FileError (List UInt8) :=
  if name = "-" then .ok s.input else s.files.contentOf s.current ⟨name⟩

/-- Runs a step for each argument; the exit code is that of the last step that failed. -/
def eachArg (step : Session → String → Session × Nat) (s : Session) (args : List String) :
    Session × Nat :=
  args.foldl (fun (s, code) arg =>
    let (s, failed) := step s arg
    (s, if failed = 0 then code else failed)) (s, 0)

/-- Writes the content of files one after the other. -/
def cat (s : Session) (args : List String) : Session × Nat :=
  let names := (splitOptions args).2
  eachArg (fun s name =>
    match readInput s name with
    | .ok bytes => (s.emit 1 bytes, 0)
    | .error e => (s.complain ("cat: " ++ name ++ ": " ++ refusalText e), 1))
    s (if names.isEmpty then ["-"] else names)

/-- The names in a directory that a listing shows. -/
def shownNames (s : Session) (options : List Char) (place : Location) : List String :=
  let names := FileTree.sortNames (s.files.children place)
  if options.contains 'a' then "." :: ".." :: names
  else if options.contains 'A' then names
  else names.filter fun n => n.toList.head? ≠ some '.'

/-- Lists files, then the names in directories. -/
def ls (s : Session) (args : List String) : Session × Nat :=
  let (options, names) := splitOptions args
  let names := if names.isEmpty then ["."] else FileTree.sortNames names
  let asFile name := options.contains 'd' || !s.files.isDirectoryPath s.current ⟨name⟩
  let known := names.filter fun n => s.files.existsAt s.current ⟨n⟩
  let missing := names.filter fun n => !s.files.existsAt s.current ⟨n⟩
  let s := missing.foldl (fun (s : Session) n =>
    s.complain ("ls: cannot access '" ++ n ++ "': No such file or directory")) s
  let plainFiles := known.filter asFile
  let directories := known.filter fun n => !asFile n
  let s := plainFiles.foldl Session.say s
  let (s, _) := directories.foldl (fun ((s : Session), first) name =>
    let s := if first then s else s.say ""
    let s := if names.length > 1 then s.say (name ++ ":") else s
    match s.files.locate s.current ⟨name⟩ with
    | .ok place => ((shownNames s options place).foldl Session.say s, false)
    | .error _ => (s, false)) (s, plainFiles.isEmpty)
  (s, if missing.isEmpty then 0 else 2)

/-- Makes empty files where there are none. -/
def touch (s : Session) (args : List String) : Session × Nat :=
  eachArg (fun s name =>
    if s.files.existsAt s.current ⟨name⟩ then (s, 0)
    else match s.files.writeFile s.current ⟨name⟩ [] with
      | .ok files => ({ s with files }, 0)
      | .error e => (s.complain ("touch: cannot touch '" ++ name ++ "': " ++ refusalText e), 1))
    s (splitOptions args).2

/-- Removes files, and directories if asked to. -/
def rm (s : Session) (args : List String) : Session × Nat :=
  let (options, names) := splitOptions args
  let deep := options.contains 'r' || options.contains 'R'
  let quiet := options.contains 'f'
  eachArg (fun s name =>
    match s.files.locate s.current ⟨name⟩ with
    | .error .notFound =>
      if quiet then (s, 0)
      else (s.complain ("rm: cannot remove '" ++ name ++ "': No such file or directory"), 1)
    | .error e => (s.complain ("rm: cannot remove '" ++ name ++ "': " ++ refusalText e), 1)
    | .ok place =>
      if s.files.isDirectory place && !deep then
        (s.complain ("rm: cannot remove '" ++ name ++ "': Is a directory"), 1)
      else if FileTree.endsInDots ⟨name⟩ then
        (s.complain ("rm: refusing to remove '.' or '..' directory: skipping '" ++ name ++ "'"), 1)
      else ({ s with files := s.files.prune place }, 0))
    s names

/-- Makes directories. -/
def mkdir (s : Session) (args : List String) : Session × Nat :=
  let (options, names) := splitOptions args
  eachArg (fun s name =>
    let (files, made) :=
      if options.contains 'p' then s.files.makeDirectories s.current ⟨name⟩
      else match s.files.makeDirectory s.current ⟨name⟩ with
        | .ok files => (files, .ok ())
        | .error e => (s.files, .error e)
    let s := { s with files }
    match made with
    | .ok () => (s, 0)
    | .error e =>
      (s.complain ("mkdir: cannot create directory '" ++ name ++ "': " ++ refusalText e), 1))
    s names

/-- Removes empty directories. -/
def rmdir (s : Session) (args : List String) : Session × Nat :=
  eachArg (fun s name =>
    let refuse (e : FileError) :=
      (s.complain ("rmdir: failed to remove '" ++ name ++ "': " ++ refusalText e), 1)
    match s.files.locate s.current ⟨name⟩ with
    | .error e => refuse e
    | .ok place =>
      if !s.files.isDirectory place then refuse .notDirectory
      else if !(s.files.children place).isEmpty then refuse .notEmpty
      else ({ s with files := s.files.prune place }, 0))
    s (splitOptions args).2

/-- Where a file goes that is copied or moved to a place: into it, if it is a directory. -/
def destination (s : Session) (source target : String) : Path :=
  if s.files.isDirectoryPath s.current ⟨target⟩ then
    Path.join ⟨target⟩ ⟨(Path.mk source).baseName⟩
  else ⟨target⟩

/-- Copies everything at one place to another. -/
def graft (files : FileTree) (source target : Location) : FileTree :=
  (files.entries.filter fun e => source.isPrefixOf e.1).foldl
    (fun files e => files.put (target ++ e.1.drop source.length) e.2) files

/-- Copies or moves one file or directory. -/
def transfer (tool : String) (deep keep : Bool) (s : Session) (source target : String) :
    Session × Nat :=
  match s.files.locate s.current ⟨source⟩ with
  | .error _ =>
    (s.complain (tool ++ ": cannot stat '" ++ source ++ "': No such file or directory"), 1)
  | .ok place =>
    if s.files.isDirectory place && !deep then
      (s.complain (tool ++ ": -r not specified; omitting directory '" ++ source ++ "'"), 1)
    else match s.files.locateParent s.current (destination s source target) with
      | .error e =>
        (s.complain (tool ++ ": cannot create regular file '" ++ target ++ "': "
          ++ refusalText e), 1)
      | .ok (parent, name) =>
        let goal := parent ++ [name]
        if goal = place then (s, 0)
        else
          let files := graft s.files place goal
          ({ s with files := if keep then files else files.prune place }, 0)

/-- Copies or moves files to the last argument. -/
def copyOrMove (tool : String) (keep : Bool) (s : Session) (args : List String) :
    Session × Nat :=
  let (options, names) := splitOptions args
  let deep := !keep || options.contains 'r' || options.contains 'R' || options.contains 'a'
  match names.getLast? with
  | some target =>
    eachArg (fun s source => transfer tool deep keep s source target) s names.dropLast
  | none => (s.complain (tool ++ ": missing file operand"), 1)

/-- Prints the lines that match, or only tells whether there are any. -/
def grep (s : Session) (args : List String) : Session × Nat :=
  let (options, names) := splitOptions args
  match names with
  | [] => (s, 2)
  | pattern :: files =>
    let fold (cs : List Char) := if options.contains 'i' then cs.map Char.toLower else cs
    let hits (line : List UInt8) : Bool :=
      let cs := fold (Utf8.decode line)
      let found := if options.contains 'F'
        then regexOccurs ((fold pattern.toList).flatMap fun c => ['\\', c]) cs
        else regexOccurs (fold pattern.toList) cs
      found != options.contains 'v'
    let (s, bytes, failed) := (if files.isEmpty then ["-"] else files).foldl
      (fun ((s : Session), bytes, failed) name =>
        match readInput s name with
        | .ok more => (s, bytes ++ more, failed)
        | .error e => (s.complain ("grep: " ++ name ++ ": " ++ refusalText e), bytes, true))
      (s, [], false)
    let found := (linesOf bytes).filter hits
    let s := if options.contains 'q' then s
      else if options.contains 'c' then s.say (Decimal.text found.length)
      else s.emit 1 (unlines found)
    (s, if failed then 2 else if found.isEmpty then 1 else 0)

/-- The value of a numeric option such as `-n 3` or `-3`, and the other arguments. -/
def countOption (letter : Char) (standard : Nat) : List String → Nat × List String
  | [] => (standard, [])
  | arg :: rest =>
    match arg.toList with
    | ['-', c] =>
      match decide (c = letter), rest with
      | true, n :: rest => (Decimal.value n.toList, rest)
      | _, _ => if c.isDigit then (Decimal.value [c], rest) else (standard, arg :: rest)
    | '-' :: c :: digits =>
      if c = letter then (Decimal.value digits, rest)
      else if c.isDigit then (Decimal.value (c :: digits), rest)
      else (standard, arg :: rest)
    | _ => (standard, arg :: rest)

/-- The content of the files named, or what is left to be read. -/
def gather (tool : String) (s : Session) (names : List String) :
    Session × List UInt8 × Nat :=
  (if names.isEmpty then ["-"] else names).foldl
    (fun (s, bytes, code) name =>
      match readInput s name with
      | .ok more => (s, bytes ++ more, code)
      | .error e => (s.complain (tool ++ ": " ++ name ++ ": " ++ refusalText e), bytes, 1))
    (s, [], 0)

/-- The first lines or bytes. -/
def head (s : Session) (args : List String) : Session × Nat :=
  match args with
  | "-c" :: n :: names =>
    let (s, bytes, code) := gather "head" s names
    (s.emit 1 (bytes.take (Decimal.value n.toList)), code)
  | _ =>
    let (n, names) := countOption 'n' 10 args
    let (s, bytes, code) := gather "head" s names
    (s.emit 1 ((Pieces.ending Lines.newline bytes).take n).flatten, code)

/-- The last lines or bytes; a count with a plus sign says where to start. -/
def tail (s : Session) (args : List String) : Session × Nat :=
  let start (n : String) (size : Nat) : Nat := match n.toList with
    | '+' :: digits => Decimal.value digits - 1
    | digits => size - Decimal.value digits
  match args with
  | "-c" :: n :: names =>
    let (s, bytes, code) := gather "tail" s names
    (s.emit 1 (bytes.drop (start n bytes.length)), code)
  | _ =>
    let (n, names) : String × List String := match args with
      | "-n" :: n :: names => (n, names)
      | args =>
        let (n, names) := countOption 'n' 10 args
        (Decimal.text n, names)
    let (s, bytes, code) := gather "tail" s names
    let lines := Pieces.ending Lines.newline bytes
    (s.emit 1 (lines.drop (start n lines.length)).flatten, code)

/-- Counts lines, words or bytes. -/
def wc (s : Session) (args : List String) : Session × Nat :=
  let (options, names) := splitOptions args
  let (s, bytes, code) := gather "wc" s names
  let lines := (bytes.filter (· = Lines.newline)).length
  let isSpace (b : UInt8) := b = 32 || (9 ≤ b && b ≤ 13)
  let words := (bytes.foldl (fun ((n : Nat), inWord) b =>
    if isSpace b then (n, false) else (if inWord then n else n + 1, true)) (0, false)).1
  let chosen :=
    (if options.contains 'l' then [lines] else [])
      ++ (if options.contains 'w' then [words] else [])
      ++ (if options.contains 'c' || options.contains 'm' then [bytes.length] else [])
  let chosen := if chosen.isEmpty then [lines, words, bytes.length] else chosen
  let suffix := match names with
    | [name] => " " ++ name
    | _ => ""
  let width := if chosen.length = 1 then 1
    else if names.isEmpty then 7 else (Decimal.text bytes.length).length
  let column (n : Nat) : String :=
    let digits := Decimal.text n
    String.ofList (List.replicate (width - digits.length) ' ') ++ digits
  (s.say (String.intercalate " " (chosen.map column) ++ suffix), code)

/-- Sorts lines. -/
def sort (s : Session) (args : List String) : Session × Nat :=
  let (options, names) := splitOptions args
  let (s, bytes, code) := gather "sort" s names
  let lines := FileTree.sortNames ((linesOf bytes).map fun l => String.ofList (Utf8.decode l))
  let lines := if options.contains 'u' then lines.eraseReps else lines
  let lines := if options.contains 'r' then lines.reverse else lines
  (lines.foldl Session.say s, code)

/-- The last name of a path, perhaps without a suffix. -/
def basename (s : Session) (args : List String) : Session × Nat :=
  let args := match args with
    | "--" :: rest => rest
    | args => args
  match args with
  | path :: rest =>
    let name := (Path.mk path).baseName
    let name := if name.isEmpty then (if path.isEmpty then "" else "/") else name
    let cs := name.toList
    let suffix := (rest.head?.getD "").toList
    let cs := if suffix.length < cs.length && suffix.reverse.isPrefixOf cs.reverse
      then cs.take (cs.length - suffix.length) else cs
    (s.say (String.ofList cs), 0)
  | [] => (s.complain "basename: missing operand", 1)

/-- A path without its last name. -/
def dirname (s : Session) (args : List String) : Session × Nat :=
  let args := match args with
    | "--" :: rest => rest
    | args => args
  eachArg (fun s path =>
    let p := Path.mk path
    let front := p.names.dropLast
    (s.say (if front.isEmpty then (if p.isAbsolute then "/" else ".")
      else (Path.ofNames p.isAbsolute front).text), 0)) s args

/-- The numbers from one to another. -/
def seq (s : Session) (args : List String) : Session × Nat :=
  let number (text : String) : Int := (Decimal.signed? text.toList).getD 0
  let (first, step, last) : Int × Int × Int := match args.map number with
    | [b] => (1, 1, b)
    | [a, b] => (a, 1, b)
    | [a, d, b] => (a, d, b)
    | _ => (1, 1, 0)
  let count := if step = 0 then 0 else ((last - first) / step + 1).toNat
  ((List.range count).foldl (fun (s : Session) (i : Nat) =>
    s.say (Decimal.signedText (first + step * (i : Int)))) s, 0)

/-- Replaces or removes single characters. -/
def tr (s : Session) (args : List String) : Session × Nat :=
  let (options, sets) := splitOptions args
  let items (text : String) : List Char :=
    let rec spread : List Char → List Char
      | '\\' :: 'n' :: rest => '\n' :: spread rest
      | a :: '-' :: b :: rest =>
        ((List.range (b.toNat + 1 - a.toNat)).map fun i => Char.ofNat (a.toNat + i))
          ++ spread rest
      | a :: rest => a :: spread rest
      | [] => []
    spread text.toList
  let cs := Utf8.decode s.input
  let cs := match options.contains 'd', sets with
    | true, source :: _ => cs.filter fun c => !(items source).contains c
    | _, source :: target :: _ =>
      let table := (items source).zip
        (items target ++ List.replicate (items source).length ((items target).getLast?.getD ' '))
      cs.map fun c => (table.lookup c).getD c
    | _, _ => cs
  (s.emit 1 (Utf8.encode cs), 0)

/-! ## Tests -/

/-- A test of one operand. -/
def unaryTest (s : Session) (op arg : String) : Option Bool :=
  let node? : Option FileNode := match s.files.locate s.current ⟨arg⟩ with
    | .ok place => s.files.get? place
    | .error _ => none
  match op with
  | "-n" => some !arg.isEmpty
  | "-z" => some arg.isEmpty
  | "-d" => some (node? == some .directory)
  | "-f" => some (match node? with
    | some (.file _) => true
    | _ => false)
  | "-s" => some (match node? with
    | some (.file content) => !content.isEmpty
    | some .directory => true
    | none => false)
  | "-x" => some (node? == some .directory)
  | "-e" => some node?.isSome
  | "-r" => some node?.isSome
  | "-w" => some node?.isSome
  | "-h" => some false
  | "-L" => some false
  | "-t" => some false
  | _ => none

/-- A test of two operands. -/
def binaryTest (a op b : String) : Option Bool :=
  let number (text : String) : Int := (Decimal.signed? text.toList).getD 0
  match op with
  | "=" => some (a = b)
  | "==" => some (a = b)
  | "!=" => some (a ≠ b)
  | "-eq" => some (number a = number b)
  | "-ne" => some (number a ≠ number b)
  | "-lt" => some (number a < number b)
  | "-le" => some (number a ≤ number b)
  | "-gt" => some (number a > number b)
  | "-ge" => some (number a ≥ number b)
  | _ => none

/-- The value of a test expression, with at most `fuel` negations and connectives. -/
def evalTest (s : Session) : Nat → List String → Option Bool
  | 0, _ => none
  | fuel + 1, args =>
    match args with
    | [] => some false
    | [a] => some !a.isEmpty
    | [op, a] => if op = "!" then some a.isEmpty else unaryTest s op a
    | "!" :: rest => (evalTest s fuel rest).map (!·)
    | [a, op, b] => binaryTest a op b
    | args =>
      match args.span (· ≠ "-o") with
      | (left, _ :: right) => do
        let l ← evalTest s fuel left
        let r ← evalTest s fuel right
        some (l || r)
      | _ =>
        match args.span (· ≠ "-a") with
        | (left, _ :: right) => do
          let l ← evalTest s fuel left
          let r ← evalTest s fuel right
          some (l && r)
        | _ => none

/-- The exit code of a test. -/
def testCode (s : Session) (args : List String) : Session × Nat :=
  match evalTest s (args.length + 1) args with
  | some true => (s, 0)
  | some false => (s, 1)
  | none => (s, 2)

/-! ## The table of utilities -/

/-- A program by its name. -/
def utility? (name : String) : Option (Session → List String → Session × Nat) :=
  match name with
  | "true" => some fun s _ => (s, 0)
  | ":" => some fun s _ => (s, 0)
  | "false" => some fun s _ => (s, 1)
  | "echo" => some fun s args => (s.emit 1 (echoOutput args), 0)
  | "printf" => some fun s args => match args with
    | "--" :: format :: args => (s.emit 1 (formatAll format (args.length + 1) args), 0)
    | format :: args => (s.emit 1 (formatAll format (args.length + 1) args), 0)
    | [] => (s.complain "printf: usage: printf format [arg ...]", 2)
  | "test" => some testCode
  | "[" => some fun s args =>
    if args.getLast? = some "]" then testCode s args.dropLast
    else (s.shellComplaint "[: missing ]", 2)
  | "cat" => some cat
  | "ls" => some ls
  | "touch" => some touch
  | "rm" => some rm
  | "mkdir" => some mkdir
  | "rmdir" => some rmdir
  | "cp" => some (copyOrMove "cp" true)
  | "mv" => some (copyOrMove "mv" false)
  | "grep" => some grep
  | "head" => some head
  | "tail" => some tail
  | "wc" => some wc
  | "sort" => some sort
  | "tr" => some tr
  | "basename" => some basename
  | "dirname" => some dirname
  | "seq" => some seq
  | "sleep" => some fun s _ => (s, 0)
  | "sync" => some fun s _ => (s, 0)
  | "pwd" => some fun s _ => (s.say (Path.ofNames true s.current).text, 0)
  | "env" => some fun s _ => (s.vars.foldl (fun (s : Session) v => s.say (v.1 ++ "=" ++ v.2)) s, 0)
  | _ => none

/-- Programs that are files of the system, and not part of the shell alone. -/
def isProgram (name : String) : Bool :=
  name = "sh" || (name ≠ ":" && (utility? name).isSome)

end DeployWatch.Shell
