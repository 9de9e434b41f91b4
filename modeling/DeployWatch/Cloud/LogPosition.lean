/-
# Positions in a log

The provider hands out tokens only while an answer has more pages.  Once it has caught up,
the position is remembered as the newest timestamp seen and the ids of the events seen at
that timestamp.  It is encoded into a token of this library's own, `after:<time>:<ids>`, and
decoded when the token comes back.  A later query starts *at* the timestamp, so events written
late within the same millisecond are still found, and the listed ids are skipped.
-/

import DeployWatch.Text.Decimal
import DeployWatch.Text.Pieces

namespace DeployWatch

open DeployWatch.Text

/-- The newest moment of a log that has been seen. -/
structure LogPosition where
  /-- The newest timestamp. -/
  timestamp : Int
  /-- The ids of the events seen at that timestamp. -/
  seen : List String
  deriving DecidableEq, Repr

namespace LogPosition

/-- How tokens of this library begin. -/
def mark : List Char := "after:".toList

/-- A text without a given beginning, if it begins so. -/
def stripMark? : List Char → List Char → Option (List Char)
  | [], cs => some cs
  | _ :: _, [] => none
  | m :: ms, c :: cs => if m = c then stripMark? ms cs else none

/-- The token is one of this library's own, well formed or not. -/
def isOwn (token : String) : Bool := mark.isPrefixOf token.toList

/-- The ids in the last part of a token; empty ones are left out. -/
def readIds (cs : List Char) : List String :=
  ((Pieces.between ',' cs).filter fun piece => !piece.isEmpty).map String.ofList

/-- The position that a token encodes, if it is a well-formed token of this library. -/
def decode? (token : String) : Option LogPosition := do
  let rest ← stripMark? mark token.toList
  let time := rest.takeWhile (· ≠ ':')
  let ids := (rest.dropWhile (· ≠ ':')).drop 1
  some ⟨← Decimal.signed? time, readIds ids⟩

/-- The token for a position. -/
def encode (p : LogPosition) : String :=
  String.ofList (mark ++ Decimal.signedDigits p.timestamp ++ [':'])
    ++ String.intercalate "," p.seen

/-- An event with this timestamp and id has been seen. -/
def hasSeen (p : LogPosition) (timestamp : Int) (id : String) : Bool :=
  timestamp = p.timestamp && p.seen.contains id

/-- The newest of some timestamps. -/
def newest? : List Int → Option Int
  | [] => none
  | t :: rest => match newest? rest with
    | none => some t
    | some u => some (max t u)

/-- Ids with one more, unless it is empty or already there. -/
def addId (seen : List String) (id : String) : List String :=
  if id.isEmpty || seen.contains id then seen else seen ++ [id]

/-- The position after events, given by timestamp and id.  The ids of the position before are
kept when the newest timestamp did not change; without events there is no new position. -/
def advance? (before : Option LogPosition) (events : List (Int × String)) :
    Option LogPosition := do
  let newest ← newest? (events.map (·.1))
  let kept := match before with
    | some p => if p.timestamp = newest then p.seen else []
    | none => []
  let ids := (events.filter (·.1 = newest)).map (·.2)
  some ⟨newest, ids.foldl addId kept⟩

end LogPosition

end DeployWatch
