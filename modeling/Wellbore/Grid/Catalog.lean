import Wellbore.Grid.Active
import Wellbore.Grid.Description

/-!
# The grids of a case

A catalog holds one grid per name, in the order in which they were registered. A
cell is always looked up in the numbering of its own grid.
-/

namespace Wellbore

structure Grid where
  name : GridName
  active : ActiveCells
  geometry : Option BoxGeometry := none
deriving DecidableEq, Inhabited

def Grid.dims (g : Grid) : GridDims := g.active.dims

structure GridCatalog where
  grids : List Grid := []
deriving DecidableEq, Inhabited

namespace GridCatalog

def find? (c : GridCatalog) (name : GridName) : Option Grid :=
  c.grids.find? fun g => g.name = name

/-- Registers a grid under a name that is still free: whether it was, and the catalog
after. -/
def insert (c : GridCatalog) (g : Grid) : Except GridError Unit × GridCatalog :=
  if (c.find? g.name).isSome then (.error (.duplicateGrid g.name), c)
  else (.ok (), ⟨c.grids ++ [g]⟩)

/-- Registers a grid all of whose cells are active. -/
def insertFull (c : GridCatalog) (name : GridName) (dims : GridDims) :
    Except GridError Unit × GridCatalog :=
  c.insert ⟨name, .full dims, none⟩

/-- The grid of a description, which must have cells and as many flags as cells. -/
def gridOf (d : GridDescription) : Except GridError Grid := do
  let dims := GridDims.ofExtents d.nx d.ny d.nz
  if dims.size = 0 then
    throw (.badDimensions (.ofNat d.nx) (.ofNat d.ny) (.ofNat d.nz))
  let active ← ActiveCells.ofFlags? d.name dims d.flags
  let geometry := d.cellSize.map fun size =>
    { dims := active.dims, origin := d.origin.getD ⟨0, 0, 0⟩, cellSize := size }
  return ⟨d.name, active, geometry⟩

/-- Registers the grids of some descriptions; the first that is refused ends it. -/
def insertAll (c : GridCatalog) : List GridDescription → Except GridError GridCatalog
  | [] => .ok c
  | d :: rest => do
    match c.insert (← gridOf d) with
    | (.ok (), c) => insertAll c rest
    | (.error e, _) => throw e

/-- The catalog of a list of descriptions. -/
def ofDescriptions (ds : List GridDescription) : Except GridError GridCatalog :=
  insertAll {} ds

/-- The extents of the grids, in order. -/
def dimsTable (c : GridCatalog) : List GridDims := c.grids.map Grid.dims

/-- The number of a cell in the named grid. -/
def indexOf (c : GridCatalog) (name : GridName) (cell : Cell) : Except GridError Nat :=
  match c.find? name with
  | none => .error (.unknownGrid name)
  | some g =>
    match g.dims.indexOf? cell with
    | some n => .ok n
    | none => .error (.cellOutOfRange name cell.i cell.j cell.k)

/-- The active number of a cell number in the named grid. -/
def activeNumber? (c : GridCatalog) (name : GridName) (index : Nat) : Option Nat :=
  (c.find? name).bind fun g => g.active.matrix.number? index

end GridCatalog

end Wellbore
