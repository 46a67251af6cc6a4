import Wellbore.Json.Basic
import Wellbore.Word

/-!
# JSON number literals

An integer literal that fits 64 bits is an integer. Every other literal is a real,
found from its leading digits: as many as fit an unsigned 64-bit integer are
kept, that integer is rounded to a real, and the real is multiplied or divided by
powers of ten. The result can differ in the last place from the nearest real, and
it is this value, not the nearest one, that a report holds.
-/

namespace Wellbore.Json

/-- The parts of a number literal, as written. -/
structure NumberText where
  negative : Bool
  whole : List Char
  fraction : Option (List Char)
  /-- The sign and digits of the exponent. -/
  exponent : Option (Bool × List Char)

def digitValue (c : Char) : Nat := c.toNat - '0'.toNat

/-- The longest run of digits at the front, and the rest. -/
def digitRun (cs : List Char) : List Char × List Char :=
  (cs.takeWhile Char.isDigit, cs.dropWhile Char.isDigit)

/-- A minus sign at the front. -/
def signPart : List Char → Bool × List Char
  | '-' :: rest => (true, rest)
  | cs => (false, cs)

/-- The digits after a point, of which there must be one. -/
def fractionPart? : List Char → Option (Option (List Char) × List Char)
  | '.' :: rest =>
    let (digits, rest) := digitRun rest
    if digits.isEmpty then none else some (some digits, rest)
  | cs => some (none, cs)

/-- The sign of an exponent, which may also be a plus. -/
def exponentSign : List Char → Bool × List Char
  | '+' :: rest => (false, rest)
  | cs => signPart cs

/-- The sign and the digits of an exponent, of which there must be one. -/
def exponentDigits? (cs : List Char) : Option (Option (Bool × List Char) × List Char) :=
  let (negative, cs) := exponentSign cs
  let (digits, cs) := digitRun cs
  if digits.isEmpty then none else some (some (negative, digits), cs)

/-- The exponent after its mark. -/
def exponentPart? : List Char → Option (Option (Bool × List Char) × List Char)
  | 'e' :: rest | 'E' :: rest => exponentDigits? rest
  | cs => some (none, cs)

/-- Splits a number literal off the front: no leading zeros, and at least one digit
after a point or an exponent mark. -/
def numberText? (cs : List Char) : Option (NumberText × List Char) := do
  let (negative, cs) := signPart cs
  let (whole, cs) := digitRun cs
  guard (whole ≠ [] ∧ (whole.head? = some '0' → whole.length = 1))
  let (fraction, cs) ← fractionPart? cs
  let (exponent, cs) ← exponentPart? cs
  return (⟨negative, whole, fraction, exponent⟩, cs)

/-- Appends digits to `kept` while 64 bits hold the result; also the number of digits
that were left over from the first one that did not fit. -/
def keepDigits (kept : Nat) : List Char → Nat × Nat
  | [] => (kept, 0)
  | c :: rest =>
    let next := kept * 10 + digitValue c
    if next < UInt64.size then keepDigits next rest else (kept, rest.length + 1)

/-- `10 ^ n` for an exponent a real can hold. -/
def powerOfTen (n : Nat) : Float := Float.ofScientific 1 false n

/-- `f * 10 ^ exponent` by at most one multiplication or by repeated division;
`none` past the largest real. Four divisions take any kept integer to zero. -/
def scale? : (fuel : Nat) → (f : Float) → (exponent : Int) → Option Float
  | 0, f, _ => some f
  | fuel + 1, f, exponent =>
    if exponent.natAbs ≤ 308 then
      if 0 ≤ exponent then
        let scaled := f * powerOfTen exponent.natAbs
        if scaled.isInf then none else some scaled
      else some (f / powerOfTen exponent.natAbs)
    else if f == 0.0 then some f
    else if 0 ≤ exponent then none
    else scale? fuel (f / powerOfTen 308) (exponent + 308)

/-- The least exponent that 32 bits with a sign do not hold. -/
def exponentLimit : Nat := Int32.maxValue.toInt.toNat + 1

/-- The digits of an exponent as a number, `none` if it is too large. -/
def exponentValue? (digits : List Char) : Option Nat :=
  let n := digits.foldl (fun n c => if n < exponentLimit then n * 10 + digitValue c else n) 0
  if n < exponentLimit then some n else none

/-- Confines an exponent to 32 bits. -/
def saturate (n : Int) : Int :=
  max Int32.minValue.toInt (min n Int32.maxValue.toInt)

/-- The size of the real a literal stands for, `none` past the largest one. A
fraction may still add digits after a digit of the whole part was left over. -/
def NumberText.magnitude? (t : NumberText) : Option Float :=
  let fraction := t.fraction.getD []
  let (kept, wholeLeft) := keepDigits 0 t.whole
  let (kept, fractionLeft) := keepDigits kept fraction
  let shift : Int := (wholeLeft : Int) - ((fraction.length : Int) - (fractionLeft : Int))
  match t.exponent with
  | none => scale? 8 (Float.ofNat kept) shift
  | some (negativeExponent, digits) =>
    match exponentValue? digits with
    | some e =>
      scale? 8 (Float.ofNat kept) (saturate (if negativeExponent then shift - e else shift + e))
    | none => if kept ≠ 0 ∧ !negativeExponent then none else some 0.0

/-- The real a literal stands for. -/
def NumberText.real? (t : NumberText) : Option Float :=
  t.magnitude?.map fun x => if t.negative then -x else x

/-- The integer a literal stands for, if it is written without point and exponent,
fits 64 bits and is not a negative zero. -/
def NumberText.int? (t : NumberText) : Option Int :=
  if t.fraction.isSome ∨ t.exponent.isSome then none
  else
    let n := t.whole.foldl (fun n c => n * 10 + digitValue c) 0
    if t.negative then if 0 < n then Word.signed64? (-(n : Int)) else none
    else (Word.unsigned64? n).map Int.ofNat

def NumberText.value (t : NumberText) : Json :=
  match t.int? with
  | some n => .int n
  | none => match t.real? with
    | some x => .real x
    | none => .unreadable

end Wellbore.Json
