import Wellbore.Grid.Active

/-!
# Cell numbers can be undone

A cell number is written in mixed radix: within a layer by rows, then layer by layer.
Each digit stays below its own extent, so the digits come back out by dividing with the
extents of the same grid, and two cells of a grid share no number.

The active numbers of a grid are kept both ways, in two arrays that one pass over the
cells fills side by side. `Numbers` is what a step of that pass preserves; it says of which
marks the two arrays are the numbering and that one of them undoes the other.
-/

namespace Wellbore

namespace GridDims

variable {d : GridDims} {c c' : Cell} {n : Nat}

theorem contains_iff : d.contains c = true ↔ c.i < d.nx ∧ c.j < d.ny ∧ c.k < d.nz := by
  simp only [contains, Bool.and_eq_true, decide_eq_true_eq, and_assoc]

theorem indexOf?_eq_some : d.indexOf? c = some n ↔
    (c.i < d.nx ∧ c.j < d.ny ∧ c.k < d.nz) ∧ c.i + c.j * d.nx + c.k * d.nx * d.ny = n := by
  rw [indexOf?, ← contains_iff]
  split
  · next hin => simp only [hin, Option.some.injEq, true_and]
  · next hout => simp only [hout, reduceCtorEq, false_and]

/-- A digit below its extent, and what is written before it, stay below the product. -/
theorem add_mul_lt {r q a b : Nat} (hr : r < a) (hq : q < b) : r + q * a < a * b := by
  have hle : (q + 1) * a ≤ b * a := Nat.mul_le_mul_right a hq
  rw [Nat.succ_mul] at hle
  rw [Nat.mul_comm a b]
  omega

theorem add_mul_div_mod {r q a : Nat} (hr : r < a) :
    (r + q * a) / a = q ∧ (r + q * a) % a = r := by
  refine ⟨?_, ?_⟩
  · rw [Nat.add_mul_div_right _ _ (Nat.zero_lt_of_lt hr), Nat.div_eq_of_lt hr, Nat.zero_add]
  · rw [Nat.add_mul_mod_self_right, Nat.mod_eq_of_lt hr]

/-- The number of a cell is a number of the grid, and it is the number of that cell. -/
theorem cellAt?_of_indexOf? (h : d.indexOf? c = some n) :
    n < d.size ∧ d.cellAt? n = some c := by
  obtain ⟨⟨hi, hj, hk⟩, rfl⟩ := indexOf?_eq_some.mp h
  have hrow : c.i + c.j * d.nx < d.nx * d.ny := add_mul_lt hi hj
  obtain ⟨hlayer, hwithin⟩ := add_mul_div_mod (q := c.k) hrow
  obtain ⟨hdiv, hmod⟩ := add_mul_div_mod (q := c.j) hi
  rw [Nat.mul_assoc c.k]
  have hsize : c.i + c.j * d.nx + c.k * (d.nx * d.ny) < d.size := add_mul_lt hrow hk
  refine ⟨hsize, ?_⟩
  rw [cellAt?, if_pos hsize]
  simp only [hlayer, hwithin, hdiv, hmod]

theorem indexOf?_inj (h : d.indexOf? c = some n) (h' : d.indexOf? c' = some n) : c = c' := by
  have hc := (cellAt?_of_indexOf? h).2
  rw [(cellAt?_of_indexOf? h').2, Option.some.injEq] at hc
  exact hc.symm

end GridDims

/-! ## Active numbers -/

namespace CellNumbering

variable {n : CellNumbering} {marks : List Bool} {m : Bool} {cell number : Nat}

/-- The cells that have a number are those that are marked, and a number leads back to the
cell that has it. -/
structure Numbers (n : CellNumbering) (marks : List Bool) : Prop where
  sized : n.numberOf.size = marks.length
  marked : ∀ cell, (n.number? cell).isSome = true ↔ marks[cell]? = some true
  back : ∀ cell number, n.number? cell = some number → n.cell? number = some cell

theorem number?_push : (n.push m).number? cell =
    if cell = n.numberOf.size then (if m then some n.cells.size else Option.none)
    else n.number? cell := by
  rw [number?, number?, push]
  cases m <;> simp only [Bool.false_eq_true, if_true, if_false, Array.getElem?_push] <;>
    split <;> rfl

theorem cell?_push : (n.push m).cell? number =
    if m = true ∧ number = n.cells.size then some n.numberOf.size else n.cell? number := by
  rw [cell?, cell?, push]
  cases m with
  | false => simp only [Bool.false_eq_true, false_and, if_false]
  | true => simp only [if_true, true_and, Array.getElem?_push]

theorem cell?_lt (h : n.cell? number = some cell) : number < n.cells.size :=
  (Array.getElem?_eq_some_iff.mp h).1

theorem Numbers.push (h : n.Numbers marks) : (n.push m).Numbers (marks ++ [m]) where
  sized := by
    rw [List.length_append, List.length_singleton, ← h.sized, CellNumbering.push]
    cases m <;> exact Array.size_push _
  marked cell := by
    rw [number?_push, h.sized]
    by_cases hlast : cell = marks.length
    · rw [if_pos hlast, hlast, List.getElem?_concat_length]
      cases m <;> simp
    · rw [if_neg hlast, h.marked cell]
      rcases Nat.lt_or_gt_of_ne hlast with hlt | hgt
      · rw [List.getElem?_append_left hlt]
      · rw [List.getElem?_eq_none (by omega), List.getElem?_eq_none (by simp; omega)]
  back cell number := by
    intro hnumber
    rw [number?_push] at hnumber
    rw [cell?_push]
    split at hnumber
    · next hlast =>
        split at hnumber
        · next hm =>
            cases hnumber
            rw [if_pos ⟨hm, rfl⟩, hlast]
        · cases hnumber
    · -- a number that was given out stays below the next one
      have hcell := h.back cell number hnumber
      have hlt := cell?_lt hcell
      rw [if_neg fun hnew => Nat.ne_of_lt hlt hnew.2, hcell]

end CellNumbering

end Wellbore
