/-
# Arithmetic of the shell

Expressions over integers and variables, with the operators of the shell and their usual
ranks.  A variable that is unset or no number counts as zero.
-/

import DeployWatch.Shell.Lexer

namespace DeployWatch.Shell

open DeployWatch.Text

/-- Binary operators with their ranks, the longer ones first. -/
def arithmeticOperators : List (String × Nat) :=
  [("||", 1), ("&&", 2), ("==", 6), ("!=", 6), ("<<", 8), (">>", 8), ("<=", 7), (">=", 7),
   ("|", 3), ("^", 4), ("&", 5), ("<", 7), (">", 7), ("+", 9), ("-", 9), ("*", 10), ("/", 10),
   ("%", 10)]

/-- One for true and zero for false. -/
def truth (b : Bool) : Int := if b then 1 else 0

/-- The value of an operator; none for a division by zero. -/
def applyOperator (op : String) (a b : Int) : Option Int :=
  match op with
  | "||" => some (truth (a ≠ 0 || b ≠ 0))
  | "&&" => some (truth (a ≠ 0 && b ≠ 0))
  | "==" => some (truth (a = b))
  | "!=" => some (truth (a ≠ b))
  | "<=" => some (truth (a ≤ b))
  | ">=" => some (truth (a ≥ b))
  | "<" => some (truth (a < b))
  | ">" => some (truth (a > b))
  | "<<" => some (a * Int.pow 2 (b.toNat % 64))
  | ">>" => some (a / Int.pow 2 (b.toNat % 64))
  | "|" => some (Int.ofNat (a.toNat ||| b.toNat))
  | "^" => some (Int.ofNat (a.toNat ^^^ b.toNat))
  | "&" => some (Int.ofNat (a.toNat &&& b.toNat))
  | "+" => some (a + b)
  | "-" => some (a - b)
  | "*" => some (a * b)
  | "/" => if b = 0 then none else some (a.tdiv b)
  | "%" => if b = 0 then none else some (a.tmod b)
  | _ => none

/-- Drops white space. -/
def skipArithmeticSpace (cs : List Char) : List Char := cs.dropWhile Char.isWhitespace

/-- The value of a text as a number. -/
def numberOf (text : String) : Int :=
  (Decimal.signed? (text.toList.filter fun c => !c.isWhitespace)).getD 0

mutual

/-- An operand with its signs. -/
def operand (lookup : String → String) : Nat → List Char → Option (Int × List Char)
  | 0, _ => none
  | fuel + 1, cs =>
    match skipArithmeticSpace cs with
    | '-' :: rest => (operand lookup fuel rest).map fun r => (-r.1, r.2)
    | '+' :: rest => operand lookup fuel rest
    | '!' :: rest => (operand lookup fuel rest).map fun r => (truth (r.1 = 0), r.2)
    | '(' :: rest => do
      let (value, rest) ← operation lookup fuel 0 rest
      match skipArithmeticSpace rest with
      | ')' :: rest => some (value, rest)
      | _ => none
    | c :: rest =>
      if c.isDigit then
        let digits := (c :: rest).takeWhile Char.isDigit
        some (Decimal.value digits, (c :: rest).drop digits.length)
      else if isNameStart c then
        let name := (c :: rest).takeWhile isNameChar
        some (numberOf (lookup (String.ofList name)), (c :: rest).drop name.length)
      else none
    | [] => none

/-- Operands joined by operators of at least a given rank. -/
def operation (lookup : String → String) : Nat → Nat → List Char → Option (Int × List Char)
  | 0, _, _ => none
  | fuel + 1, rank, cs => do
    let (value, rest) ← operand lookup fuel cs
    operationAfter lookup fuel rank value rest

/-- What follows an operand. -/
def operationAfter (lookup : String → String) :
    Nat → Nat → Int → List Char → Option (Int × List Char)
  | 0, _, _, _ => none
  | fuel + 1, rank, value, cs =>
    let cs := skipArithmeticSpace cs
    match arithmeticOperators.find? fun op => op.1.toList.isPrefixOf cs with
    | some (op, opRank) =>
      if opRank < rank then some (value, cs)
      else do
        let (right, rest) ← operation lookup fuel (opRank + 1) (cs.drop op.length)
        operationAfter lookup fuel rank (← applyOperator op value right) rest
    | none => some (value, cs)

end

/-- The value of an expression; an empty one is zero. -/
def arithmetic? (lookup : String → String) (source : String) : Option Int :=
  let cs := skipArithmeticSpace source.toList
  if cs.isEmpty then some 0
  else match operation lookup (4 * cs.length + 4) 0 cs with
    | some (value, rest) => if (skipArithmeticSpace rest).isEmpty then some value else none
    | none => none

end DeployWatch.Shell
