import Wellbore.Grid.Dims

/-!
# Active cells

Per-cell data is stored for active cells only and in their order, so it is
addressed by active number. A grid with dual porosity numbers its matrix cells
and its fracture cells apart; a flag word per cell has one bit for each.
-/

namespace Wellbore

/-- The cells of one kind: their numbers among their kind, both ways. -/
structure CellNumbering where
  /-- For every cell its number within the kind, if it is of the kind. -/
  numberOf : Array (Option Nat) := #[]
  /-- The cells of the kind, in order. -/
  cells : Array Nat := #[]
deriving DecidableEq, Repr, Inhabited

namespace CellNumbering

/-- Appends the next cell of the grid. -/
def push : CellNumbering → Bool → CellNumbering
  | ⟨numberOf, cells⟩, member =>
    let cell := numberOf.size
    let number := cells.size
    if member then ⟨numberOf.push (some number), cells.push cell⟩
    else ⟨numberOf.push none, cells⟩

/-- The numbering of the cells that are marked. -/
def ofMarks (marks : List Bool) : CellNumbering := marks.foldl push {}

/-- Every one of `size` cells is of the kind. -/
def all (size : Nat) : CellNumbering := ⟨(Array.range size).map some, Array.range size⟩

/-- None of `size` cells is of the kind. -/
def none (size : Nat) : CellNumbering := ⟨Array.replicate size Option.none, #[]⟩

/-- The number of a cell within the kind. -/
def number? (n : CellNumbering) (cell : Nat) : Option Nat := n.numberOf[cell]?.join

def cell? (n : CellNumbering) (number : Nat) : Option Nat := n.cells[number]?

end CellNumbering

/-- The bit of an active matrix cell. -/
def matrixBit : Int32 := 1

/-- The bit of an active fracture cell. -/
def fractureBit : Int32 := 2

structure ActiveCells where
  dims : GridDims
  matrix : CellNumbering
  fracture : CellNumbering
deriving DecidableEq, Repr, Inhabited

namespace ActiveCells

/-- Each of `size` cells is an active matrix cell. -/
def allOf (dims : GridDims) (size : Nat) : ActiveCells := ⟨dims, .all size, .none size⟩

/-- Active cells by a flag word for each of `size` cells. -/
def markedOf (grid : GridName) (dims : GridDims) (flags : List Int32) (size : Nat) :
    Except GridError ActiveCells :=
  if flags.length ≠ size then .error (.actnumSize grid flags.length size)
  else
    let matrix := CellNumbering.ofMarks (flags.map fun f => f &&& matrixBit != 0)
    let fracture := CellNumbering.ofMarks (flags.map fun f => f &&& fractureBit != 0)
    .ok ⟨{ dims with nactive := matrix.cells.size }, matrix, fracture⟩

/-- Active cells by flags, or each of `size` cells where no flags are given. -/
def flaggedOf (grid : GridName) (dims : GridDims) (flags : Option (List Int32)) (size : Nat) :
    Except GridError ActiveCells :=
  match flags with
  | some flags => markedOf grid dims flags size
  | none => .ok (allOf dims size)

/-- Every cell is an active matrix cell. -/
def full (dims : GridDims) : ActiveCells := allOf dims dims.size

/-- Active cells by a flag word for each cell of the grid. -/
def ofFlags (grid : GridName) (dims : GridDims) (flags : List Int32) :
    Except GridError ActiveCells := markedOf grid dims flags dims.size

/-- Active cells by flags, or all of them where no flags are given. -/
def ofFlags? (grid : GridName) (dims : GridDims) (flags : Option (List Int32)) :
    Except GridError ActiveCells := flaggedOf grid dims flags dims.size

/-- Active cells as a machine counts them, unless it stops. -/
def ofFlagsInWords? (grid : GridName) (dims : GridDims) (o : Word.Overflow)
    (flags : Option (List Int32)) : Option (Except GridError ActiveCells) :=
  (dims.sizeInWords? o).map (flaggedOf grid dims flags)

end ActiveCells

end Wellbore
