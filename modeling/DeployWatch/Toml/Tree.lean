/-
# Tables under construction

A document defines its tables piecemeal, and it may not define one twice.  A tree therefore
remembers of every table how it came about: because a header passed through it, because a
header named it, or because a dotted key passed through it.  Headers may fill in a table
that other headers only passed through; dotted keys may extend only what dotted keys began.
-/

import DeployWatch.Toml.Value

namespace DeployWatch.Toml

/-- How a table came about. -/
inductive Origin where
  /-- A header passed through it. -/
  | passed
  /-- A header names it, or it is the whole document or a table in braces. -/
  | named
  /-- A dotted key passed through it. -/
  | dotted
  deriving DecidableEq, Repr

/-- What stands under a key of a table under construction. -/
inductive Tree where
  | leaf (value : Value)
  | branch (origin : Origin) (children : List (String × Tree))
  /-- The tables of an array that headers in double brackets add to. -/
  | series (tables : List (List (String × Tree)))

/-- The children of a table under construction. -/
abbrev Children := List (String × Tree)

namespace Children

/-- Puts another tree under a key that is present. -/
def replace (key : String) (tree : Tree) (children : Children) : Children :=
  children.map fun child => if child.1 = key then (key, tree) else child

/-- Applies `change` to the table at the end of a path, making the tables on the way that
are not there.  In a series of tables the path goes through the last one. -/
def update (byDots : Bool) (change : Origin → Children → Option Children) :
    List String → Origin → Children → Option Children
  | [], origin, children => change origin children
  | key :: path, _, children =>
    match List.lookup key children with
    | none => do
      let origin := if byDots then Origin.dotted else Origin.passed
      let below ← update byDots change path origin []
      some (children ++ [(key, .branch origin below)])
    | some (.leaf _) => none
    | some (.branch origin below) =>
      if byDots && origin = .named then none
      else do
        let below ← update byDots change path origin below
        some (children.replace key (.branch origin below))
    | some (.series tables) =>
      match tables.reverse with
      | [] => none
      | last :: earlier => do
        let last ← update byDots change path .named last
        some (children.replace key (.series (last :: earlier).reverse))

/-- Adds a value under a key that is not yet taken.  A dotted key may end only in a table
that dotted keys made, a plain key only in another. -/
def assign (path : List String) (key : String) (value : Value) (children : Children) :
    Option Children :=
  update true (fun origin children =>
    if (origin == .dotted) == path.isEmpty then none
    else match List.lookup key children with
      | some _ => none
      | none => some (children ++ [(key, .leaf value)]))
    path .named children

/-- Opens the table that a header names. -/
def openTable (path : List String) (key : String) (children : Children) : Option Children :=
  update false (fun _ children =>
    match List.lookup key children with
    | none => some (children ++ [(key, .branch .named [])])
    | some (.branch .passed below) => some (children.replace key (.branch .named below))
    | some _ => none)
    path .named children

/-- Adds a table to the series that a header in double brackets names. -/
def openSeries (path : List String) (key : String) (children : Children) : Option Children :=
  update false (fun _ children =>
    match List.lookup key children with
    | none => some (children ++ [(key, .series [[]])])
    | some (.series tables) => some (children.replace key (.series (tables ++ [[]])))
    | some _ => none)
    path .named children

end Children

mutual

/-- The value that a finished tree stands for. -/
def Tree.toValue : Tree → Value
  | .leaf value => value
  | .branch _ children => .table (Tree.entries children)
  | .series tables => .array (Tree.tableValues tables)

/-- The entries of a finished table. -/
def Tree.entries : List (String × Tree) → Table
  | [] => []
  | (key, tree) :: rest => (key, tree.toValue) :: Tree.entries rest

/-- The tables of a finished series. -/
def Tree.tableValues : List (List (String × Tree)) → List Value
  | [] => []
  | children :: rest => .table (Tree.entries children) :: Tree.tableValues rest

end

end DeployWatch.Toml
