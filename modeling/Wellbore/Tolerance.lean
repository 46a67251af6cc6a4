import Wellbore.Decimal.Text

/-!
# Comparing and checking reals

Values that went through a simulator are compared within an absolute or a
relative tolerance, and a value that is not finite is refused with its name.
-/

namespace Wellbore

/-- How far apart two equal reals may be. -/
structure Tolerance where
  absolute : Float := Float.ofScientific 1 true 12
  relative : Float := Float.ofScientific 1 true 9

namespace Tolerance

/-- The larger of two sizes; what is not a number loses. -/
def larger (a b : Float) : Float :=
  if a.isNaN then b else if b.isNaN then a else if a < b then b else a

/-- Equal within the absolute tolerance, or within the relative one of the larger
magnitude. -/
def nearlyEqual (tol : Tolerance) (a b : Float) : Bool :=
  let difference := (a - b).abs
  difference ≤ tol.absolute || difference ≤ tol.relative * larger a.abs b.abs

end Tolerance

/-- A real that is not finite, and what it was meant to be. -/
structure NonFinite where
  what : String
  value : Float
deriving DecidableEq

def NonFinite.message (e : NonFinite) : String :=
  "Non-finite numeric value for " ++ e.what ++ ": " ++ Decimal.nonFiniteText e.value

def requireFinite (what : String) (value : Float) : Except NonFinite Float :=
  if value.isFinite then .ok value else .error ⟨what, value⟩

end Wellbore
