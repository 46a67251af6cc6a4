/-!
# Exact decimal views of binary reals

A finite real is a whole number times a power of two, so every question about
its decimal text is a question about natural numbers. `Binary.shortest` answers
the one that matters for round trips: the fewest digits that read back as the
same real, and among those the digits nearest to it.
-/

namespace Wellbore.Decimal

/-- The magnitude `mantissa * 2 ^ exponent` of a finite real. -/
structure Binary where
  mantissa : Nat
  exponent : Int
deriving Repr, DecidableEq

/-- `2 ^ n`; a negative exponent counts as zero. -/
def twoTo (n : Int) : Nat := Nat.pow 2 n.toNat

/-- `10 ^ n`; a negative exponent counts as zero. -/
def tenTo (n : Int) : Nat := Nat.pow 10 n.toNat

/-- The sign bit, also that of a zero. -/
def isNegative (x : Float) : Bool :=
  x.toBits.toNat / twoTo 63 = 1

/-- Splits the bits of a finite real; subnormal reals share the least exponent. -/
def Binary.ofFloat (x : Float) : Binary :=
  let bits := x.toBits.toNat
  let field : Nat := bits / twoTo 52 % twoTo 11
  let fraction : Nat := bits % twoTo 52
  if field = 0 then ⟨fraction, -1074⟩ else ⟨fraction + twoTo 52, (field : Int) - 1075⟩

/-- The quotient `num / den`, a half going to the even neighbour. -/
def roundDiv (num den : Nat) : Nat :=
  let floor := num / den
  let rest := 2 * (num % den)
  if den < rest ∨ (den = rest ∧ floor % 2 = 1) then floor + 1 else floor

/-- Removes trailing zeros from `digits`, counting them into the scale. -/
def trimZeros : (fuel : Nat) → (digits : Nat) → (scale : Int) → Nat × Int
  | 0, digits, scale => (digits, scale)
  | fuel + 1, digits, scale =>
    if digits ≠ 0 ∧ digits % 10 = 0 then trimZeros fuel (digits / 10) (scale + 1)
    else (digits, scale)

namespace Binary

/-- Whether `b` lies below `10 ^ p`. -/
def isBelowTenTo (b : Binary) (p : Int) : Bool :=
  b.mantissa * twoTo b.exponent * tenTo (-p) < tenTo p * twoTo (-b.exponent)

/-- How many digits stand before the decimal point of the scientific form
`0.d₁d₂… * 10 ^ places`: the least power of ten above `b`. A binary digit is about
`0.30103` decimal digits, which is at most two powers too low. -/
def places (b : Binary) : Int :=
  let bits : Int := b.mantissa.log2 + b.exponent
  let guess := bits * 30103 / 100000
  if b.isBelowTenTo guess then guess
  else if b.isBelowTenTo (guess + 1) then guess + 1
  else guess + 2

/-- The reals that round to `b` reach a quarter unit (below a power of two) or a
half unit to each side; in quarter units that is the first component below and
two above. -/
def below (b : Binary) : Nat :=
  if b.mantissa = twoTo 52 ∧ b.exponent ≠ -1074 then 1 else 2

/-- The multiple of `10 ^ p` nearest to `b` that still rounds to `b`, if one of
the two neighbours of `b` on that grid does; a tie goes to the even multiple. -/
def onGrid? (b : Binary) (p : Int) : Option Nat :=
  let unit := twoTo (b.exponent - 2) * tenTo (-p)
  let grid := tenTo p * twoTo (2 - b.exponent)
  let centre := 4 * b.mantissa * unit
  let low := (4 * b.mantissa - b.below) * unit
  let high := (4 * b.mantissa + 2) * unit
  let rounds (c : Nat) : Bool :=
    if b.mantissa % 2 = 0 then low ≤ c * grid && c * grid ≤ high
    else low < c * grid && c * grid < high
  let nearest := roundDiv centre grid
  let other := if nearest = centre / grid then nearest + 1 else nearest - 1
  if rounds nearest then some nearest else if rounds other then some other else none

/-- The first grid, from one digit upwards, on which a neighbour reads back. -/
def search (b : Binary) (places : Int) : (left digits : Nat) → Nat × Int
  | 0, digits =>
    (roundDiv (4 * b.mantissa * twoTo (b.exponent - 2) * tenTo (digits - places))
      (tenTo (places - digits) * twoTo (2 - b.exponent)), places - digits)
  | left + 1, digits =>
    match b.onGrid? (places - digits) with
    | some c => (c, places - digits)
    | none => search b places left (digits + 1)

/-- The fewest digits that read back as `b`, with the power of ten they count. -/
def shortest (b : Binary) : Nat × Int :=
  let (digits, scale) := b.search b.places 16 1
  trimZeros 20 digits scale

end Binary

end Wellbore.Decimal
