import Wellbore.Time.Instant
import Wellbore.Text.Blank

/-!
# Reading times

Two readers share their pieces. `parseStrict?` wants the profile to the letter:
digits in full width and a colon in the offset. `parse?`, for times in data,
also takes shorter fields, signed years, blanks around the parts, and offsets
without a colon.
-/

namespace Wellbore.Instant

open Text (trimStart)

/-- Between `least` and `most` digits at the front, as a number. -/
def digits? (least most : Nat) (cs : List Char) : Option (Nat × List Char) :=
  let run := (cs.take most).takeWhile Char.isDigit
  if run.length < least then none
  else some (run.foldl (fun n c => n * 10 + (c.toNat - '0'.toNat)) 0, cs.drop run.length)

def expect? (c : Char) : List Char → Option (List Char)
  | d :: rest => if c = d then some rest else none
  | [] => none

/-- A letter or a blank parts the date from the time. -/
def separator? : List Char → Option (List Char)
  | 'T' :: rest | 't' :: rest | ' ' :: rest => some rest
  | _ => none

/-- The fraction of a second in nanoseconds; digits past the ninth are dropped. -/
def fraction? : List Char → Option (Nat × List Char)
  | '.' :: rest =>
    let run := rest.takeWhile Char.isDigit
    if run.isEmpty then none
    else
      let kept := (run ++ List.replicate 9 '0').take 9
      some (kept.foldl (fun n c => n * 10 + (c.toNat - '0'.toNat)) 0, rest.drop run.length)
  | cs => some (0, cs)

/-- A sign, hours and minutes, with `colon` reading what stands between them. -/
def numericOffset? (colon : List Char → Option (List Char)) (cs : List Char) :
    Option (Int × List Char) := do
  let (negative, rest) ← match cs with
    | '+' :: rest => some (false, rest)
    | '-' :: rest | '\u2212' :: rest => some (true, rest)
    | _ => none
  let (hours, rest) ← digits? 2 2 rest
  let rest ← colon rest
  let (minutes, rest) ← digits? 2 2 rest
  guard (minutes < 60 ∧ hours < 24)
  let seconds : Int := hours * 3600 + minutes * 60
  return (if negative then -seconds else seconds, rest)

/-- An offset in seconds: a letter for universal time, or a numeric offset. -/
def offset? (colon : List Char → Option (List Char)) (cs : List Char) :
    Option (Int × List Char) :=
  match cs with
  | 'Z' :: rest | 'z' :: rest => some (0, rest)
  | _ => numericOffset? colon cs

/-- The fields of a clock, as written. -/
structure Clock where
  hour : Nat
  minute : Nat
  second : Nat
  nano : Nat

/-- The instant of a local date and time, if the calendar and the clock have it.
Second 60 is a leap second. -/
def ofParts? (date : Time.Date) (clock : Clock) (offset : Int) : Option Instant := do
  guard (date.valid ∧ clock.hour < 24 ∧ clock.minute < 60 ∧ clock.second ≤ 60)
  let leap := if clock.second = 60 then 1 else 0
  let ofDay : Int := clock.hour * 3600 + clock.minute * 60 + (clock.second - leap : Nat)
  dated? ⟨date.dayNumber * 86400 + ofDay - offset, clock.nano + leap * 1000000000⟩

/-- The digits of a field, blanks before it being skipped. -/
def looseDigits? (most : Nat) (cs : List Char) : Option (Nat × List Char) :=
  digits? 1 most (trimStart cs)

/-- A year of up to four digits, or of any length after a sign. -/
def looseYear? (cs : List Char) : Option (Int × List Char) :=
  match trimStart cs with
  | '-' :: rest => (digits? 1 rest.length rest).map fun (n, rest) => (-n, rest)
  | '+' :: rest => (digits? 1 rest.length rest).map fun (n, rest) => (n, rest)
  | cs => (digits? 1 4 cs).map fun (n, rest) => (n, rest)

/-- The text after the mark between two fields, blanks before it being skipped. -/
def looseMark? (c : Char) (cs : List Char) : Option (List Char) := expect? c (trimStart cs)

/-- Any colons and blanks, or none. -/
def looseColon? (cs : List Char) : Option (List Char) :=
  some (cs.dropWhile fun c => c = ':' || Text.isBlank c)

/-- An offset as `offset?` reads it, or the name of universal time in either case. -/
def looseOffset? (cs : List Char) : Option (Int × List Char) :=
  if (cs.take 3).map Char.toUpper = ['U', 'T', 'C'] then some (0, cs.drop 3)
  else offset? looseColon? cs

/-- How the fields of a date and of a clock are taken, and the marks between them. -/
structure FieldReader where
  year? : List Char → Option (Int × List Char)
  field? : List Char → Option (Nat × List Char)
  mark? : Char → List Char → Option (List Char)

namespace FieldReader

/-- To the letter of the profile. -/
def strict : FieldReader where
  year? cs := (digits? 4 4 cs).map fun (n, rest) => (n, rest)
  field? := digits? 2 2
  mark? := expect?

/-- As data holds them. -/
def loose : FieldReader where
  year? := looseYear?
  field? := looseDigits? 2
  mark? := looseMark?

def date? (r : FieldReader) (cs : List Char) : Option (Time.Date × List Char) := do
  let (year, cs) ← r.year? cs
  let cs ← r.mark? '-' cs
  let (month, cs) ← r.field? cs
  let cs ← r.mark? '-' cs
  let (day, cs) ← r.field? cs
  return (⟨year, month, day⟩, cs)

def clock? (r : FieldReader) (cs : List Char) : Option (Clock × List Char) := do
  let (hour, cs) ← r.field? cs
  let cs ← r.mark? ':' cs
  let (minute, cs) ← r.field? cs
  let cs ← r.mark? ':' cs
  let (second, cs) ← r.field? cs
  let (nano, cs) ← fraction? cs
  return (⟨hour, minute, second, nano⟩, cs)

end FieldReader

/-- Reads a time as data holds it. -/
def parse? (text : String) : Option Instant := do
  let (date, cs) ← FieldReader.loose.date? text.toList
  let cs ← separator? cs
  let (clock, cs) ← FieldReader.loose.clock? cs
  let (offset, cs) ← looseOffset? (trimStart cs)
  guard (trimStart cs).isEmpty
  ofParts? date clock offset

/-- Reads a time written to the letter of the profile. -/
def parseStrict? (text : String) : Option Instant := do
  let (date, cs) ← FieldReader.strict.date? text.toList
  let cs ← separator? cs
  let (clock, cs) ← FieldReader.strict.clock? cs
  let (offset, cs) ← offset? (expect? ':') cs
  guard cs.isEmpty
  ofParts? date clock offset

end Wellbore.Instant
