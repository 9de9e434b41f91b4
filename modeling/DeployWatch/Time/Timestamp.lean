/-
# Timestamps

A timestamp counts milliseconds from the start of 1970 in UTC.  It is written as a date and
a time with the offset `+00:00`; milliseconds are shown only when they are not zero, and a
year outside 0 to 9999 carries a sign.  Timestamps that the calendar does not reach are
written as the bare number.
-/

import DeployWatch.Text.Decimal
import DeployWatch.Time.Calendar

namespace DeployWatch.Time.Timestamp

open DeployWatch.Text

/-- The first timestamp of the calendar. -/
def first : Int := -8334601228800000

/-- The last timestamp of the calendar. -/
def last : Int := 8210266876799999

/-- The timestamp has a place in the calendar. -/
def inCalendar (ms : Int) : Bool := first ≤ ms && ms ≤ last

/-- A year: four digits, or a sign and at least four. -/
def yearText (year : Int) : String :=
  let digits := String.ofList (Decimal.padded 4 year.natAbs)
  if year < 0 then "-" ++ digits else if year > 9999 then "+" ++ digits else digits

/-- A number with at least two digits. -/
def twoDigits (n : Nat) : String := String.ofList (Decimal.padded 2 n)

/-- The milliseconds in a day. -/
def millisPerDay : Int := 86400000

/-- The written form of a timestamp. -/
def text (ms : Int) : String :=
  if inCalendar ms then
    let date := Date.ofDays (ms / millisPerDay)
    let ofDay := (ms % millisPerDay).toNat
    let milli := ofDay % 1000
    yearText date.year ++ "-" ++ twoDigits date.month ++ "-" ++ twoDigits date.day ++ "T"
      ++ twoDigits (ofDay / 3600000) ++ ":" ++ twoDigits (ofDay / 60000 % 60) ++ ":"
      ++ twoDigits (ofDay / 1000 % 60)
      ++ (if milli = 0 then "" else "." ++ String.ofList (Decimal.padded 3 milli))
      ++ "+00:00"
  else Decimal.signedText ms

end DeployWatch.Time.Timestamp
