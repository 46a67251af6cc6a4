/-!
# Machine words

Counts, cell numbers and addresses have 64 bits and no sign; record integers have
32 bits and a sign. A number that does not fit is never cut down: it simply is no
such value.

Only where it is computed without a check can a word come out wrong. Then it depends on
the machine whether the computation stops or goes on with the low bits.
-/

namespace Wellbore.Word

/-- `n` itself, if 64 bits without a sign hold it. -/
def unsigned64? (n : Nat) : Option Nat := if n < UInt64.size then some n else none

/-- `n` itself, if 64 bits with a sign hold it. -/
def signed64? (n : Int) : Option Int :=
  if Int64.minValue.toInt ≤ n ∧ n ≤ Int64.maxValue.toInt then some n else none

/-- `n` as a record integer, if 32 bits with a sign hold it. -/
def signed32? (n : Int) : Option Int32 :=
  if Int32.minValue.toInt ≤ n ∧ n ≤ Int32.maxValue.toInt then some (Int32.ofInt n) else none

/-- What becomes of a result that 64 bits do not hold. -/
inductive Overflow where
  /-- The machine stops. -/
  | stops
  /-- It goes on with the low 64 bits. -/
  | wraps
deriving DecidableEq, Repr

/-- The word for a result, unless the machine stops. -/
def Overflow.word? : Overflow → Nat → Option Nat
  | .stops, n => unsigned64? n
  | .wraps, n => some (n % UInt64.size)

/-! Steps of a machine. Each is `none` where it stops. -/

def add? (o : Overflow) (a b : Nat) : Option Nat := o.word? (a + b)

def mul? (o : Overflow) (a b : Nat) : Option Nat := o.word? (a * b)

def div? (a b : Nat) : Option Nat := if b = 0 then none else some (a / b)

def mod? (a b : Nat) : Option Nat := if b = 0 then none else some (a % b)

end Wellbore.Word
