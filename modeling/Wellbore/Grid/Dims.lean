import Wellbore.Grid.Error
import Wellbore.Word

/-!
# Grid extents and cell numbers

A cell has a number within its grid: `i` runs fastest, then `j`, then `k`. The
extents of a grid come from a header record, in one of two layouts; a second
record, where there is one, tells how many cells are active.

None of this is checked for overflow. Extents that are out of all proportion make a
machine stop, or number the cells of some smaller grid.
-/

namespace Wellbore

/-- A 0-based cell. -/
structure Cell where
  i : Nat
  j : Nat
  k : Nat
deriving DecidableEq, Repr, Inhabited

/-- The extents of a grid and the number of its active cells. -/
structure GridDims where
  nx : Nat
  ny : Nat
  nz : Nat
  nactive : Nat
deriving DecidableEq, Repr, Inhabited

namespace GridDims

/-- A grid all of whose cells are active. -/
def ofExtents (nx ny nz : Nat) : GridDims := ⟨nx, ny, nz, nx * ny * nz⟩

def size (d : GridDims) : Nat := d.nx * d.ny * d.nz

def contains (d : GridDims) (c : Cell) : Bool :=
  c.i < d.nx && c.j < d.ny && c.k < d.nz

/-- The number of a cell of the grid. -/
def indexOf? (d : GridDims) (c : Cell) : Option Nat :=
  if d.contains c then some (c.i + c.j * d.nx + c.k * d.nx * d.ny) else none

def cellAt? (d : GridDims) (n : Nat) : Option Cell :=
  if n < d.size then
    let layer := d.nx * d.ny
    some ⟨n % layer % d.nx, n % layer / d.nx, n / layer⟩
  else none

/-- The size as a machine computes it, unless it stops. -/
def sizeInWords? (d : GridDims) (o : Word.Overflow) : Option Nat := do
  Word.mul? o (← Word.mul? o d.nx d.ny) d.nz

/-- What a machine answers for the number of a cell, unless it stops. -/
def indexInWords? (d : GridDims) (o : Word.Overflow) (c : Cell) : Option (Option Nat) :=
  if d.contains c then do
    let inLayer ← Word.add? o c.i (← Word.mul? o c.j d.nx)
    let layers ← Word.mul? o (← Word.mul? o c.k d.nx) d.ny
    return some (← Word.add? o inLayer layers)
  else some none

/-- What a machine answers for the cell of a number, unless it stops. -/
def cellInWords? (d : GridDims) (o : Word.Overflow) (n : Nat) : Option (Option Cell) := do
  if n < (← d.sizeInWords? o) then
    let layer ← Word.mul? o d.nx d.ny
    let k ← Word.div? n layer
    let inLayer ← Word.mod? n layer
    return some ⟨← Word.mod? inLayer d.nx, ← Word.div? inLayer d.nx, k⟩
  else return none

/-- Extents as written, which must all be positive. -/
def ofIntegers (nx ny nz : Int32) : Except GridError GridDims :=
  if nx ≤ 0 ∨ ny ≤ 0 ∨ nz ≤ 0 then .error (.badDimensions nx ny nz)
  else .ok (ofExtents nx.toInt.toNat ny.toInt.toNat nz.toInt.toNat)

end GridDims

/-- Where a header record keeps the extents. -/
inductive HeaderLayout where
  /-- The record begins with a grid type. -/
  | gridhead
  /-- The record holds the extents only. -/
  | dimens
deriving DecidableEq, Repr

/-- The position of the first extent; the others follow it. -/
def HeaderLayout.first : HeaderLayout → Nat
  | .gridhead => 1
  | .dimens => 0

/-- The position of the active cell count in a data header. -/
def activeCountField : Nat := 11

/-- The number of active cells that a data header gives, never below zero. -/
def activeCount (header : Array Int32) : Except GridError Nat :=
  match header[activeCountField]? with
  | some n => .ok n.toInt.toNat
  | none => .error (.shortHeader header.size (activeCountField + 1))

/-- The extents in one header record, and the active cells of its data header. -/
def GridDims.ofHeader (layout : HeaderLayout) (header : Array Int32)
    (data : Option (Array Int32)) : Except GridError GridDims := do
  match header[layout.first]?, header[layout.first + 1]?, header[layout.first + 2]? with
  | some nx, some ny, some nz =>
    let dims ← GridDims.ofIntegers nx ny nz
    match data with
    | none => return dims
    | some data => return { dims with nactive := ← activeCount data }
  | _, _, _ => throw (.shortHeader header.size (layout.first + 3))

/-- The extents of every grid of a case, each header record being paired with the
data header at its position. -/
def dimsOfHeaders (layout : HeaderLayout) :
    List (Array Int32) → List (Array Int32) → Except GridError (List GridDims)
  | [], _ => .ok []
  | header :: headers, data => do
    let dims ← GridDims.ofHeader layout header data.head?
    return dims :: (← dimsOfHeaders layout headers data.tail)

end Wellbore
