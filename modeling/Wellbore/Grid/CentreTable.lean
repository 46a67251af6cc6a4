import Wellbore.Grid.Active
import Wellbore.Grid.Geometry

/-!
# Centres of the active cells

Coordinates are asked for by active number again and again, so the centres of the
active cells are laid out once. A cell that the geometry does not know has no
entry.
-/

namespace Wellbore

/-- Positions of the active cells of a grid, as parallel columns. -/
structure CentreTable where
  geometry : BoxGeometry
  cells : Array Nat := #[]
  xs : Array Float := #[]
  ys : Array Float := #[]
  zs : Array Float := #[]

namespace CentreTable

/-- Appends a cell with its centre, if it has one. -/
def push (t : CentreTable) (cell : Nat) : Option Vec3 → CentreTable
  | some c =>
    { t with cells := t.cells.push cell, xs := t.xs.push c.x, ys := t.ys.push c.y,
             zs := t.zs.push c.z }
  | none => t

/-- The centres of the active matrix cells. -/
def ofActive (geometry : BoxGeometry) (active : ActiveCells) : CentreTable :=
  active.matrix.cells.foldl (fun t cell => t.push cell (geometry.centre? cell)) { geometry }

/-- The table as a machine fills it, unless it stops. -/
def ofActiveInWords? (geometry : BoxGeometry) (o : Word.Overflow) (active : ActiveCells) :
    Option CentreTable :=
  active.matrix.cells.foldlM
    (fun t cell => (geometry.centreInWords? o cell).map (t.push cell)) { geometry }

def size (t : CentreTable) : Nat := t.cells.size

/-- The centre of the cell with a given active number. -/
def centre? (t : CentreTable) (number : Nat) : Option Vec3 :=
  match t.xs[number]?, t.ys[number]?, t.zs[number]? with
  | some x, some y, some z => some ⟨x, y, z⟩
  | _, _, _ => none

def volumes (t : CentreTable) : Array Float :=
  t.cells.map fun cell => (t.geometry.volume? cell).getD 0

/-- The volumes as a machine computes them, unless it stops. -/
def volumesInWords? (t : CentreTable) (o : Word.Overflow) : Option (Array Float) :=
  t.cells.mapM fun cell => (t.geometry.volumeInWords? o cell).map (Option.getD · 0)

end CentreTable

end Wellbore
