/-
# Punycode

The ASCII form of a label with other letters (RFC 3492): the ASCII letters as they stand, a
hyphen if there are any, and then what it takes to put the other letters in.  They are put in
in the order of their codes, and letters of one code from the left.

An insertion is a code and a place among the letters present so far.  Numbering all
insertions, the ones of a lower code first, an insertion is written as its distance from the
first one that could have come next.  Distances are written in base 36 with the lowest digit
first, and a threshold that follows the size of the distances so far says which digit ends a
number.
-/

namespace DeployWatch.Url.Punycode

/-! ## Insertions -/

/-- A letter to be put into a label. -/
structure Insertion where
  code : Nat
  /-- The number of letters before it at that time. -/
  place : Nat
  /-- The number of letters in the label at that time. -/
  present : Nat
  deriving DecidableEq, Repr

/-- The insertion of the letter at an index of a label. -/
def insertionAt (label : List Char) (index : Nat) (letter : Char) : Insertion where
  code := letter.toNat
  place := (label.take index).countP fun c => c ≤ letter
  present := label.countP (fun c => c < letter) + (label.take index).countP fun c => c = letter

/-- The insertions that a label takes, in their order. -/
def insertions (label : List Char) : List Insertion :=
  let letters := label.zipIdx.filter fun entry => 128 ≤ entry.1.toNat
  (letters.mergeSort fun a b => a.1 ≤ b.1).map fun entry => insertionAt label entry.2 entry.1

/-- Each insertion's distance, with the number of letters present after it.  The next
insertion could have had the code `code` and the place `place`. -/
def distances (code place : Nat) : List Insertion → List (Nat × Nat)
  | [] => []
  | i :: rest =>
    ((i.code - code) * (i.present + 1) + i.place - place, i.present + 1)
      :: distances i.code (i.place + 1) rest

/-! ## Numbers -/

/-- The letters and the decimal digits, as digits in base 36. -/
def digitChars : List Char := "abcdefghijklmnopqrstuvwxyz0123456789".toList

/-- The threshold of a digit; positions count in steps of 36. -/
def threshold (bias position : Nat) : Nat := min 26 (max 1 (position - bias))

theorem one_le_threshold (bias position : Nat) : 1 ≤ threshold bias position := by
  unfold threshold; omega

/-- The digits of a number: all but the last one are at least the threshold. -/
def numberDigits (bias position n : Nat) : List Char :=
  let limit := threshold bias position
  if n < limit then digitChars[n]?.toList
  else
    digitChars[limit + (n - limit) % (36 - limit)]?.toList
      ++ numberDigits bias (position + 36) ((n - limit) / (36 - limit))
termination_by n
decreasing_by
  have positive := one_le_threshold bias position
  have smaller := Nat.div_le_self (n - threshold bias position) (36 - threshold bias position)
  omega

/-- The bias for numbers of about a size: 36 for each division by 35 that brings it down to
455, and a part of 36 for what is left. -/
def biasOf (size : Nat) : Nat :=
  if 455 < size then 36 + biasOf (size / 35) else 36 * size / (size + 38)
termination_by size

/-- Writes distances.  The first one counts little for the bias of the one after it. -/
def written (bias scale : Nat) : List (Nat × Nat) → List Char
  | [] => []
  | (distance, present) :: rest =>
    let size := distance / scale
    numberDigits bias 36 distance ++ written (biasOf (size + size / present)) 2 rest

/-- The ASCII form of a label. -/
def encode (label : List Char) : List Char :=
  let basic := label.filter fun c => c.toNat < 128
  basic ++ (if basic.isEmpty then [] else ['-'])
    ++ written 72 700 (distances 128 0 (insertions label))

end DeployWatch.Url.Punycode
