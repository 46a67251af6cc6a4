import Wellbore.Time.Instant
import Wellbore.Decimal.Text

/-!
# Writing times

The internet profile of the standard date and time format, in universal time. A
fraction is written only if it is not zero, with three, six or nine digits.
-/

namespace Wellbore.Instant

open Decimal (padded)

/-- A year has four digits, or a sign and at least four if it needs more. -/
def yearText (year : Int) : String :=
  if 0 ≤ year ∧ year ≤ 9999 then padded 4 year.toNat
  else (if year < 0 then "-" else "+") ++ padded 4 year.natAbs

def dateText (t : Instant) : String :=
  let d := t.date
  yearText d.year ++ "-" ++ padded 2 d.month ++ "-" ++ padded 2 d.day

/-- The shortest of the three precisions that loses nothing. -/
def fractionText (nano : Nat) : String :=
  if nano = 0 then ""
  else if nano % 1000000 = 0 then "." ++ padded 3 (nano / 1000000)
  else if nano % 1000 = 0 then "." ++ padded 6 (nano / 1000)
  else "." ++ padded 9 nano

def clockText (t : Instant) : String :=
  let ofDay := (t.second % 86400).toNat
  let leap := t.nano / 1000000000
  padded 2 (ofDay / 3600) ++ ":" ++ padded 2 (ofDay / 60 % 60) ++ ":"
    ++ padded 2 (ofDay % 60 + leap) ++ fractionText (t.nano % 1000000000)

/-- The written form, marked as universal time by a letter. -/
def text (t : Instant) : String := t.dateText ++ "T" ++ t.clockText ++ "Z"

/-- The written form with a numeric offset from universal time. -/
def offsetText (t : Instant) : String := t.dateText ++ "T" ++ t.clockText ++ "+00:00"

/-- The form for readers: date, time and zone, apart. -/
def displayText (t : Instant) : String := t.dateText ++ " " ++ t.clockText ++ " UTC"

end Wellbore.Instant
