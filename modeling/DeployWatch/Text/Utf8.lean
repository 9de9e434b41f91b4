/-
# UTF-8

Decoding of byte sequences that may be malformed.  One step looks at the head of a sequence
and says either which character stands there or that none does, together with the number of
continuation bytes that belong to the head.  A malformed head takes as many bytes as could
still have begun a character (at most three), so the lossy reading writes one replacement
character for each maximal prefix of a character that is cut short.
-/

namespace DeployWatch.Text.Utf8

/-- The character written for bytes that encode none. -/
def replacement : Char := Char.ofNat 0xFFFD

/-- The payload of a continuation byte. -/
def payload (b : UInt8) : Nat := b.toNat % 0x40

/-- A byte that may stand in the third or fourth place of a character. -/
def isContinuation (b : UInt8) : Bool := 0x80 ≤ b && b ≤ 0xBF

/-- The second bytes that may follow a three-byte lead: no overlong form, no surrogate. -/
def fitsThree (lead second : UInt8) : Bool :=
  if lead = 0xE0 then 0xA0 ≤ second && second ≤ 0xBF
  else if lead = 0xED then 0x80 ≤ second && second ≤ 0x9F
  else isContinuation second

/-- The second bytes that may follow a four-byte lead: no overlong form, nothing above the
last code point. -/
def fitsFour (lead second : UInt8) : Bool :=
  if lead = 0xF0 then 0x90 ≤ second && second ≤ 0xBF
  else if lead = 0xF4 then 0x80 ≤ second && second ≤ 0x8F
  else isContinuation second

/-- The character at the head of `lead :: rest`, or none, and how many bytes of `rest` the
head takes with it. -/
def step (lead : UInt8) (rest : List UInt8) : Option Char × Nat :=
  if lead < 0x80 then (some (Char.ofNat lead.toNat), 0)
  else if 0xC2 ≤ lead && lead ≤ 0xDF then
    match rest with
    | b :: _ =>
      if isContinuation b then (some (Char.ofNat ((lead.toNat - 0xC0) * 0x40 + payload b)), 1)
      else (none, 0)
    | [] => (none, 0)
  else if 0xE0 ≤ lead && lead ≤ 0xEF then
    match rest with
    | b :: rest =>
      if fitsThree lead b then
        match rest with
        | c :: _ =>
          if isContinuation c then
            (some (Char.ofNat (((lead.toNat - 0xE0) * 0x40 + payload b) * 0x40 + payload c)), 2)
          else (none, 1)
        | [] => (none, 1)
      else (none, 0)
    | [] => (none, 0)
  else if 0xF0 ≤ lead && lead ≤ 0xF4 then
    match rest with
    | b :: rest =>
      if fitsFour lead b then
        match rest with
        | c :: rest =>
          if isContinuation c then
            match rest with
            | d :: _ =>
              if isContinuation d then
                (some (Char.ofNat
                  ((((lead.toNat - 0xF0) * 0x40 + payload b) * 0x40 + payload c) * 0x40
                    + payload d)), 3)
              else (none, 2)
            | [] => (none, 2)
          else (none, 1)
        | [] => (none, 1)
      else (none, 0)
    | [] => (none, 0)
  else (none, 0)

/-- Reads bytes as text and writes the replacement character where no character stands. -/
def decode (bytes : List UInt8) : List Char :=
  match bytes with
  | [] => []
  | lead :: rest =>
    (step lead rest).1.getD replacement :: decode (rest.drop (step lead rest).2)
termination_by bytes.length
decreasing_by
  simp only [List.length_drop, List.length_cons]
  omega

/-- Reads bytes as text and refuses any that are malformed. -/
def decode? (bytes : List UInt8) : Option (List Char) :=
  match bytes with
  | [] => some []
  | lead :: rest =>
    match (step lead rest).1 with
    | some c => (decode? (rest.drop (step lead rest).2)).map (c :: ·)
    | none => none
termination_by bytes.length
decreasing_by
  simp only [List.length_drop, List.length_cons]
  omega

/-- The bytes of a text. -/
def encode (cs : List Char) : List UInt8 := cs.flatMap String.utf8EncodeChar

/-- The bytes of a string. -/
def bytes (text : String) : List UInt8 := encode text.toList

end DeployWatch.Text.Utf8
