/-!
# Bisection

The number of leading positions at which a test holds, found by halving. If the
test holds on a first part of the positions and nowhere after it, the answer is
the length of that part.
-/

namespace Wellbore.Bisection

/-- Bisects `size` positions from `base` on. -/
def search (test : Nat → Bool) (base size : Nat) : Nat :=
  if h : size ≤ 1 then
    if test base then base + 1 else base
  else
    let half := size / 2
    search test (if test (base + half) then base + half else base) (size - half)
termination_by size
decreasing_by omega

/-- How many leading elements of `xs` pass the test. -/
def partitionPoint {α : Type} (xs : Array α) (test : α → Bool) : Nat :=
  if xs.isEmpty then 0 else search (fun i => xs[i]?.any test) 0 xs.size

end Wellbore.Bisection
