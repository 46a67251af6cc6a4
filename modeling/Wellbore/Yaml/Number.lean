import Wellbore.Yaml.Scalar
import Wellbore.Word

/-!
# What a plain scalar says

Integers in four notations, reals with the names of what is not finite, flags, and the
names of the absent value.
-/

namespace Wellbore.Yaml

/-- The digits of a base, and the value of each. -/
def digitOf? (base : Nat) (c : Char) : Option Nat :=
  (hexDigit? c).bind fun d => if d < base then some d else none

def naturalIn? (base : Nat) (cs : List Char) : Option Nat := do
  guard !cs.isEmpty
  let digits ← cs.mapM (digitOf? base)
  return digits.foldl (fun n d => n * base + d) 0

/-- A number that does not start with a zero it does not need. -/
def decimal? (cs : List Char) : Option Nat :=
  if 1 < cs.length ∧ cs.head? = some '0' then none else naturalIn? 10 cs

/-- A magnitude in any of the four notations. -/
def magnitude? : List Char → Option Nat
  | '0' :: 'x' :: cs => naturalIn? 16 cs
  | '0' :: 'o' :: cs => naturalIn? 8 cs
  | '0' :: 'b' :: cs => naturalIn? 2 cs
  | cs => decimal? cs

def unsigned? (text : String) : Option Nat := do
  Word.unsigned64? (← magnitude? (match text.toList with | '+' :: cs => cs | cs => cs))

def signed? (text : String) : Option Int :=
  match text.toList with
  | '-' :: cs => do
    let n ← magnitude? cs
    Word.signed64? (-(n : Int))
  | cs => do
    let n ← magnitude? (match cs with | '+' :: cs => cs | cs => cs)
    Word.signed64? n

/-- The size of a decimal real: digits with at most one point, then an exponent. -/
def realMagnitude? (cs : List Char) : Option Float := do
  let whole := cs.takeWhile Char.isDigit
  let cs := cs.drop whole.length
  let (fraction, cs) := match cs with
    | '.' :: rest => (rest.takeWhile Char.isDigit, rest.dropWhile Char.isDigit)
    | _ => ([], cs)
  guard !(whole ++ fraction).isEmpty
  let exponent ← match cs with
    | [] => some 0
    | mark :: rest =>
      if mark ≠ 'e' ∧ mark ≠ 'E' then none
      else match rest with
        | '-' :: ds => (naturalIn? 10 ds).map fun n => -(n : Int)
        | '+' :: ds => (naturalIn? 10 ds).map fun n => (n : Int)
        | ds => (naturalIn? 10 ds).map fun n => (n : Int)
  let mantissa := (whole ++ fraction).foldl (fun n c => n * 10 + (c.toNat - '0'.toNat)) 0
  let scale := exponent - fraction.length
  -- Beyond these bounds the value is zero or no real at all.
  if mantissa = 0 ∨ scale < -(400 + (whole.length + fraction.length : Nat) : Int) then some 0
  else if 400 < scale then none
  else
    let x := Float.ofScientific mantissa (scale < 0) scale.natAbs
    if x.isFinite then some x else none

/-- A real, or one of the names of what is not finite. -/
def real? (text : String) : Option Float :=
  let (negative, plus, cs) := match text.toList with
    | '-' :: cs => (true, false, cs)
    | '+' :: cs => (false, true, cs)
    | cs => (false, false, cs)
  if ["inf", "Inf", "INF"].any fun name => cs = '.' :: name.toList then
    some (if negative then -1 / 0 else 1 / 0)
  else if !negative && !plus && ["nan", "NaN", "NAN"].any fun name => cs = '.' :: name.toList then
    some (0 / 0)
  else (realMagnitude? cs).map fun x => if negative then -x else x

def flag? (text : String) : Option Bool :=
  if text = "true" ∨ text = "True" ∨ text = "TRUE" then some true
  else if text = "false" ∨ text = "False" ∨ text = "FALSE" then some false
  else none

/-- Whether a text names the absent value. -/
def namesNull (text : String) : Bool :=
  text = "null" || text = "Null" || text = "NULL" || text = "~"

end Wellbore.Yaml
