/-!
# Table positions

Segments and connections are named by their position in the table that holds
them. A handle keeps the position in 32 bits and leaves one value for "none", so
the last 32-bit number is not a position.
-/

namespace Wellbore

/-- A 0-based position in a table. -/
abbrev Slot := Nat

namespace Slot

/-- How many positions a handle can tell apart. -/
def limit : Nat := UInt32.size - 1

/-- The position `n` as a handle, if a handle can hold it. -/
def ofNat? (n : Nat) : Option Slot := if n < limit then some n else none

/-- The positions from `s` on along `next`, at most `limit` of them. -/
def walk (next : Slot → Option Slot) : (limit : Nat) → Slot → List Slot
  | 0, _ => []
  | limit + 1, s =>
    s :: match next s with
      | some s => walk next limit s
      | none => []

/-- A handle in running text. -/
def text (s : Slot) : String := Nat.repr s

/-- A handle where its type should show. -/
def labelled (s : Slot) : String := "Id(" ++ s.text ++ ")"

end Slot

end Wellbore
