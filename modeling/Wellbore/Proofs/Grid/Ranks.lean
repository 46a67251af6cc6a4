import Mathlib.Data.List.Induction
import Wellbore.Proofs.Grid.Extents

/-!
# An active number is a rank

The active number of a cell is the count of the marked cells before it. One pass over the cells
gives the numbers out and lists the cells side by side; `Counts` is the invariant of that pass,
and what it adds to `Numbers` is that the list is as long as the marks are many and that a number
is what was counted when its cell came. Ranks grow with the cells, so the cells are listed in
increasing order, and the two look-ups undo each other.

Which cells are marked is one bit of their flag word, and a word is no less than its 32 bits if it
is negative. The two kinds of cell are counted apart, each by its own bit.
-/

namespace Wellbore

namespace CellNumbering

variable {n : CellNumbering} {marks : List Bool} {m : Bool} {cell cell' number number' : Nat}

/-- The marked cells have their ranks as numbers, and are listed in the order of the grid. -/
structure Ranks (n : CellNumbering) (marks : List Bool) : Prop where
  number : ∀ cell, n.number? cell =
    if marks[cell]? = some true then some ((marks.take cell).count true) else Option.none
  size : n.cells.size = marks.count true
  listed : ∀ number, (n.cell? number).isSome = true ↔ number < n.cells.size
  members : ∀ cell, (∃ number, n.cell? number = some cell) ↔ marks[cell]? = some true
  increasing : ∀ number number' cell cell', n.cell? number = some cell →
    n.cell? number' = some cell' → number < number' → cell < cell'
  inverse : ∀ cell number, n.number? cell = some number ↔ n.cell? number = some cell

/-! ## Counting -/

/-- So far the marks have been counted: every number given out is the count of the marks before
its cell. -/
structure Counts (n : CellNumbering) (marks : List Bool) : Prop extends n.Numbers marks where
  counted : n.cells.size = marks.count true
  rank : ∀ cell number, n.number? cell = some number → number = (marks.take cell).count true
  forth : ∀ cell number, n.cell? number = some cell → n.number? cell = some number

theorem Numbers.lt_length (h : n.Numbers marks) (hnumber : n.number? cell = some number) :
    cell < marks.length := by
  have hmark := (h.marked cell).mp (hnumber ▸ rfl)
  exact (List.getElem?_eq_some_iff.mp hmark).1

theorem Counts.push (h : n.Counts marks) : (n.push m).Counts (marks ++ [m]) where
  toNumbers := h.toNumbers.push
  counted := by
    rw [CellNumbering.push]
    cases m <;> simp [h.counted]
  rank cell number := by
    intro hnumber
    rw [number?_push, h.sized] at hnumber
    split at hnumber
    next hlast =>
      split at hnumber
      next =>
        cases hnumber
        rw [hlast, List.take_left, h.counted]
      next => cases hnumber
    next =>
      have hlt := h.lt_length hnumber
      rw [List.take_append_of_le_length (Nat.le_of_lt hlt)]
      exact h.rank cell number hnumber
  forth cell number := by
    intro hcell
    rw [cell?_push] at hcell
    rw [number?_push]
    split at hcell
    next hnew =>
      cases hcell
      rw [if_pos rfl, if_pos hnew.1, hnew.2]
    next =>
      -- a cell that is listed was met before this one
      have hnumber := h.forth cell number hcell
      have hlt := h.lt_length hnumber
      rw [if_neg (by rw [h.sized]; exact Nat.ne_of_lt hlt), hnumber]

theorem counts_ofMarks (marks : List Bool) : (ofMarks marks).Counts marks := by
  induction marks using List.reverseRecOn with
  | nil =>
      have hnumber (cell : Nat) : (ofMarks []).number? cell = Option.none := rfl
      have hcell (number : Nat) : (ofMarks []).cell? number = Option.none := rfl
      exact ⟨⟨rfl, by simp [hnumber], by simp [hnumber]⟩, rfl, by simp [hnumber], by simp [hcell]⟩
  | append_singleton marks m ih =>
      rw [ofMarks, List.foldl_append]
      exact ih.push

theorem Counts.cell_lt (h : n.Counts marks) (hcell : n.cell? number = some cell)
    (hcell' : n.cell? number' = some cell') (hlt : number < number') : cell < cell' := by
  have hrank := h.rank cell number (h.forth cell number hcell)
  have hrank' := h.rank cell' number' (h.forth cell' number' hcell')
  by_contra hle
  have hcount : (marks.take cell').count true ≤ (marks.take cell).count true :=
    (List.take_sublist_take_left (Nat.le_of_not_lt hle)).count_le true
  omega

theorem Counts.ranks (h : n.Counts marks) : n.Ranks marks where
  number cell := by
    split
    next hmark =>
      obtain ⟨number, hnumber⟩ := Option.isSome_iff_exists.mp ((h.marked cell).mpr hmark)
      rw [hnumber, h.rank cell number hnumber]
    next hmark =>
      rw [← h.marked cell] at hmark
      exact Option.not_isSome_iff_eq_none.mp hmark
  size := h.counted
  listed number := by rw [cell?, isSome_getElem?]
  members cell := by
    rw [← h.marked cell, Option.isSome_iff_exists]
    exact exists_congr fun number => ⟨h.forth cell number, h.back cell number⟩
  increasing _ _ _ _ := h.cell_lt
  inverse cell number := ⟨h.back cell number, h.forth cell number⟩

theorem Ranks.pairwise (h : n.Ranks marks) : n.cells.toList.Pairwise (· < ·) := by
  rw [List.pairwise_iff_getElem]
  intro number number' hnumber hnumber' hlt
  refine h.increasing number number' _ _ ?_ ?_ hlt
  · exact Array.getElem?_eq_getElem hnumber
  · exact Array.getElem?_eq_getElem hnumber'

/-! ## All cells alike -/

theorem ofMarks_replicate_succ (size : Nat) (m : Bool) :
    ofMarks (List.replicate (size + 1) m) = (ofMarks (List.replicate size m)).push m := by
  rw [List.replicate_succ', ofMarks, List.foldl_append]
  rfl

theorem ofMarks_replicate_true (size : Nat) : ofMarks (List.replicate size true) = all size := by
  induction size with
  | zero => simp [ofMarks, all]
  | succ size ih =>
      rw [ofMarks_replicate_succ, ih, all, all, push]
      simp [Array.range_succ]

theorem ofMarks_replicate_false (size : Nat) : ofMarks (List.replicate size false) = none size := by
  induction size with
  | zero => rfl
  | succ size ih =>
      rw [ofMarks_replicate_succ, ih, none, none, push]
      simp [Array.replicate_succ]

end CellNumbering

/-! ## Flag words -/

namespace ActiveCells

open CellNumbering (ofMarks counts_ofMarks ofMarks_replicate_true ofMarks_replicate_false)

variable {f bit : Int32} {i : Nat}

/-- Whether a flag word has bit `i`, asked with the word that has this bit only. -/
theorem and_bne_zero (hi : i < 32) (hbit : bit.toBitVec = BitVec.twoPow 32 i) :
    (f &&& bit != 0) = f.toBitVec.getLsbD i := by
  have hpow : BitVec.twoPow 32 i ≠ 0#32 := by
    intro hzero
    have hbit := congrArg (fun b => BitVec.getLsbD b i) hzero
    simp [hi] at hbit
  rw [Bool.eq_iff_iff, bne_iff_ne, Ne, ← Int32.toBitVec_inj, Int32.toBitVec_and, hbit,
    BitVec.and_twoPow]
  cases f.toBitVec.getLsbD i with
  | false => simp
  | true => simpa using hpow

/-- The cells that the flags mark with bit `i`. -/
def marks (i : Nat) (flags : List Int32) : List Bool := flags.map fun f => f.toBitVec.getLsbD i

theorem map_matrixBit (flags : List Int32) :
    (flags.map fun f => f &&& matrixBit != 0) = marks 0 flags :=
  List.map_congr_left fun _ _ => and_bne_zero (by decide) rfl

theorem map_fractureBit (flags : List Int32) :
    (flags.map fun f => f &&& fractureBit != 0) = marks 1 flags :=
  List.map_congr_left fun _ _ => and_bne_zero (by decide) rfl

section
variable {grid : GridName} {dims : GridDims} {size : Nat} {a : ActiveCells}

theorem markedOf_of_length_ne {flags : List Int32} (h : flags.length ≠ size) :
    markedOf grid dims flags size = .error (.actnumSize grid flags.length size) := if_pos h

theorem markedOf_of_length {flags : List Int32} (h : flags.length = size) :
    markedOf grid dims flags size =
      .ok ⟨{ dims with nactive := (ofMarks (marks 0 flags)).cells.size }, ofMarks (marks 0 flags),
        ofMarks (marks 1 flags)⟩ := by
  rw [markedOf, if_neg (not_not_intro h), map_matrixBit, map_fractureBit]

/-- Which of `size` cells are active matrix cells. Without flags all of them are. -/
def matrixMarks (size : Nat) : Option (List Int32) → List Bool
  | some flags => marks 0 flags
  | none => List.replicate size true

variable {flags : Option (List Int32)}

theorem flaggedOf_cases (h : flaggedOf grid dims flags size = .ok a) :
    flags = none ∧ a = allOf dims size ∨
      ∃ words, flags = some words ∧ words.length = size ∧
        a = ⟨{ dims with nactive := (ofMarks (marks 0 words)).cells.size },
          ofMarks (marks 0 words), ofMarks (marks 1 words)⟩ := by
  cases flags with
  | none => exact .inl ⟨rfl, (Except.ok.inj h).symm⟩
  | some words =>
      rw [flaggedOf] at h
      by_cases hlength : words.length = size
      · rw [markedOf_of_length hlength, Except.ok.injEq] at h
        exact .inr ⟨words, rfl, hlength, h.symm⟩
      · rw [markedOf_of_length_ne hlength] at h
        cases h

theorem ranks_matrix (h : flaggedOf grid dims flags size = .ok a) :
    a.matrix.Ranks (matrixMarks size flags) := by
  rcases flaggedOf_cases h with ⟨rfl, rfl⟩ | ⟨words, rfl, -, rfl⟩
  · rw [allOf, ← ofMarks_replicate_true]
    exact (counts_ofMarks _).ranks
  · exact (counts_ofMarks _).ranks

/-- Where the extents fit, a machine counts the cells that there are. -/
theorem ofFlagsInWords?_of_lt {o : Word.Overflow} (hlayer : dims.nx * dims.ny < UInt64.size)
    (hsize : dims.size < UInt64.size) :
    ofFlagsInWords? grid dims o flags = some (ofFlags? grid dims flags) := by
  rw [ofFlagsInWords?, GridDims.sizeInWords?_eq hlayer hsize]
  rfl

/-- A grid that is numbered by its extents has as many active cells as its numbering. -/
theorem dims_of_ofFlags? {nx ny nz : Nat}
    (h : ofFlags? grid (.ofExtents nx ny nz) flags = .ok a) :
    a.dims = ⟨nx, ny, nz, a.matrix.cells.size⟩ := by
  rcases flaggedOf_cases h with ⟨rfl, rfl⟩ | ⟨words, rfl, -, rfl⟩
  · rw [allOf, CellNumbering.all, Array.size_range]
    rfl
  · rfl

end

/-- A grid all of whose flags are 1 is numbered as one without flags. -/
theorem ofFlags_replicate_one (grid : GridName) (nx ny nz : Nat) :
    ofFlags grid (.ofExtents nx ny nz) (List.replicate (nx * ny * nz) 1) =
      .ok (full (.ofExtents nx ny nz)) := by
  have hmatrix : ofMarks (marks 0 (List.replicate (nx * ny * nz) 1)) = .all (nx * ny * nz) := by
    rw [marks, List.map_replicate]
    exact ofMarks_replicate_true _
  have hfracture : ofMarks (marks 1 (List.replicate (nx * ny * nz) 1)) =
      .none (nx * ny * nz) := by
    rw [marks, List.map_replicate]
    exact ofMarks_replicate_false _
  have hlength : (List.replicate (nx * ny * nz) (1 : Int32)).length =
      (GridDims.ofExtents nx ny nz).size := List.length_replicate
  rw [ofFlags, markedOf_of_length hlength, hmatrix, hfracture, CellNumbering.all, Array.size_range]
  rfl

/-- Flags are refused exactly if there are not as many as cells. Otherwise the matrix cells are
numbered by the lowest bit and the fracture cells by the next one, and where every flag is 1 this
is the numbering of a grid without flags. -/
theorem ofFlags_ranks (grid : GridName) (dims : GridDims) (flags : List Int32) :
    (flags.length ≠ dims.size ∧
        ofFlags grid dims flags = .error (.actnumSize grid flags.length dims.size) ∨
      flags.length = dims.size ∧ ∃ a, ofFlags grid dims flags = .ok a ∧
        a.matrix.Ranks (marks 0 flags) ∧ a.fracture.Ranks (marks 1 flags) ∧
        a.dims = { dims with nactive := a.matrix.cells.size }) ∧
    ∀ nx ny nz, ofFlags grid (.ofExtents nx ny nz) (List.replicate (nx * ny * nz) 1) =
      .ok (full (.ofExtents nx ny nz)) := by
  refine ⟨?_, ofFlags_replicate_one grid⟩
  by_cases hlength : flags.length = dims.size
  · exact .inr ⟨hlength, _, markedOf_of_length hlength, (counts_ofMarks _).ranks,
      (counts_ofMarks _).ranks, rfl⟩
  · exact .inl ⟨hlength, markedOf_of_length_ne hlength⟩

/-- Matrix only, neither, both with the sign bit set, fracture only, and all bits. -/
example : (ofFlags .global (.ofExtents 5 1 1) [1, 0, -2147483645, 2, -1]).toOption.map
    (fun a => (a.matrix.cells, a.fracture.cells, a.dims.nactive)) =
      some (#[0, 2, 4], #[2, 3, 4], 3) := by decide

end ActiveCells

end Wellbore
