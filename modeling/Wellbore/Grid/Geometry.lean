import Wellbore.Grid.Dims

/-!
# Where the cells are

An axis-aligned box grid with one cell size; depth grows along the third axis.
-/

namespace Wellbore

/-- A point or an extent in space. -/
structure Vec3 where
  x : Float
  y : Float
  z : Float
deriving DecidableEq, Repr, Inhabited

/-- A box of equal cells. -/
structure BoxGeometry where
  dims : GridDims
  origin : Vec3
  cellSize : Vec3
deriving DecidableEq, Repr, Inhabited

namespace BoxGeometry

/-- The middle of the `n`-th cell along one axis. -/
def middle (origin size : Float) (n : Nat) : Float :=
  origin + (Float.ofNat n + Float.ofScientific 5 true 1) * size

def centreOf (g : BoxGeometry) (c : Cell) : Vec3 :=
  ⟨middle g.origin.x g.cellSize.x c.i, middle g.origin.y g.cellSize.y c.j,
    middle g.origin.z g.cellSize.z c.k⟩

/-- The volume that all cells have. -/
def cellVolume (g : BoxGeometry) : Float := g.cellSize.x * g.cellSize.y * g.cellSize.z

/-- The centre of a cell of the grid. -/
def centre? (g : BoxGeometry) (index : Nat) : Option Vec3 :=
  (g.dims.cellAt? index).map g.centreOf

/-- The volume of a cell of the grid. -/
def volume? (g : BoxGeometry) (index : Nat) : Option Float :=
  (g.dims.cellAt? index).map fun _ => g.cellVolume

/-- What a machine answers for the centre of a cell, unless it stops. -/
def centreInWords? (g : BoxGeometry) (o : Word.Overflow) (index : Nat) : Option (Option Vec3) :=
  (g.dims.cellInWords? o index).map (Option.map g.centreOf)

/-- What a machine answers for the volume of a cell, unless it stops. -/
def volumeInWords? (g : BoxGeometry) (o : Word.Overflow) (index : Nat) : Option (Option Float) :=
  (g.dims.cellInWords? o index).map (Option.map fun _ => g.cellVolume)

end BoxGeometry

end Wellbore
