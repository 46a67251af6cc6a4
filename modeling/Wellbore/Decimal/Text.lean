import Wellbore.Decimal.Shortest

/-!
# Writing reals

Two written forms are needed: the shortest text that reads back, whose layout is
a `Layout` value chosen by the format that prints it, and a text with a fixed
number of places for tables.
-/

namespace Wellbore.Decimal

/-- Where positional notation begins and ends, and how an exponent is written. -/
structure Layout where
  /-- Values below `10 ^ (leastPlaces - 1)` are written with an exponent. -/
  leastPlaces : Int
  /-- Values from `10 ^ mostPlaces` on are written with an exponent. -/
  mostPlaces : Int
  /-- Whether a positive exponent carries its sign. -/
  plus : Bool

/-- The digits of `n`, padded with zeros on the left to `width`. -/
def padded (width n : Nat) : String :=
  let text := toString n
  "".pushn '0' (width - text.length) ++ text

/-- Not-a-number and the infinities, by name. -/
def nonFiniteText (x : Float) : String :=
  if x.isNaN then "NaN" else if x > 0 then "inf" else "-inf"

/-- The digits `ds` with the point after `places` of them. -/
def Layout.arrange (layout : Layout) (ds : List Char) (places : Int) : String :=
  let n : Int := ds.length
  if layout.leastPlaces ≤ places ∧ places ≤ layout.mostPlaces then
    if n ≤ places then
      String.ofList ds ++ "".pushn '0' (places - n).toNat ++ ".0"
    else if 0 < places then
      String.ofList (ds.take places.toNat) ++ "." ++ String.ofList (ds.drop places.toNat)
    else
      "0." ++ "".pushn '0' (-places).toNat ++ String.ofList ds
  else
    let exponent := places - 1
    let sign := if exponent < 0 then "-" else if layout.plus then "+" else ""
    let fraction := if ds.length ≤ 1 then "" else "." ++ String.ofList (ds.drop 1)
    String.ofList (ds.take 1) ++ fraction ++ "e" ++ sign ++ toString exponent.natAbs

/-- The shortest text that reads back as `x`. -/
def Layout.text (layout : Layout) (x : Float) : String :=
  if !x.isFinite then nonFiniteText x
  else
    let sign := if isNegative x then "-" else ""
    let b := Binary.ofFloat x
    if b.mantissa = 0 then sign ++ "0.0"
    else
      let (digits, scale) := b.shortest
      let ds := Nat.toDigits 10 digits
      sign ++ layout.arrange ds (ds.length + scale)

/-- `x` with exactly `places` digits after the point, the exact value being
rounded and a half going to the even digit. -/
def fixedText (places : Nat) (x : Float) : String :=
  if !x.isFinite then nonFiniteText x
  else
    let sign := if isNegative x then "-" else ""
    let b := Binary.ofFloat x
    let n := roundDiv (b.mantissa * twoTo b.exponent * tenTo places) (twoTo (-b.exponent))
    let whole := toString (n / tenTo places)
    if places = 0 then sign ++ whole
    else sign ++ whole ++ "." ++ padded places (n % tenTo places)

end Wellbore.Decimal
