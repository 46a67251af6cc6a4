import Wellbore.Restart.WellHeader

/-!
# Connections

A connection is a cell through which a well talks to the reservoir. Only in a
segmented well does it name the segment it drains into, and whether the well is
segmented is decided by the global grid, not by the records at hand.
-/

namespace Wellbore

/-- The direction in which a connection penetrates its cell. -/
inductive Direction where
  | x
  | y
  | z
  | fractureX
  | fractureY
deriving DecidableEq, Repr

namespace Direction

/-- The direction of a code, if it is one. -/
def ofCode? (code : Int32) : Option Direction :=
  if code = 1 then some .x
  else if code = 2 then some .y
  else if code = 3 then some .z
  else if code = 4 then some .fractureX
  else if code = 5 then some .fractureY
  else none

def text : Direction → String
  | .x => "X"
  | .y => "Y"
  | .z => "Z"
  | .fractureX => "FractureX"
  | .fractureY => "FractureY"

end Direction

/-- A cell through which a well talks to the reservoir. -/
structure Connection where
  grid : GridName
  /-- The cell in the numbering of `grid`. -/
  cell : Cell
  isOpen : Bool
  direction : Option Direction := none
  /-- The number of the segment it drains into, in a segmented well. -/
  segmentId : Option Int32 := none
  factor : Option Float := none
deriving DecidableEq, Repr, Inhabited

namespace Connection

/-- The columns of a connection row. -/
def numberColumn : Nat := 0
def iColumn : Nat := 1
def jColumn : Nat := 2
def kColumn : Nat := 3
def statusColumn : Nat := 5
def directionColumn : Nat := 13
def segmentColumn : Nat := 14
def factorColumn : Nat := 0

/-- The segment number in a connection row, if the well is segmented. -/
def segmentIdOf (row : Array Int32) (segmented : Bool) :
    Except RecordError (Option Int32) :=
  if segmented then (fieldOf row .icon segmentColumn).map some else .ok none

/-- Decodes one connection row of a well. -/
def decode (h : ReportHeader) (r : GridRecords) (well row : Nat) (segmented : Bool) :
    Except RecordError Connection := do
  let ints ← r.connectionRow h well row
  let segmentId ← segmentIdOf ints segmented
  let reals ← r.connectionReals h well row
  let i ← fieldOf ints .icon iColumn
  let j ← fieldOf ints .icon jColumn
  let k ← fieldOf ints .icon kColumn
  let status ← fieldOf ints .icon statusColumn
  let direction ← fieldOf ints .icon directionColumn
  return {
    grid := r.grid
    cell := ⟨fromOne i, fromOne j, fromOne k⟩
    isOpen := 0 < status
    direction := Direction.ofCode? direction
    segmentId
    factor := reals.bind fun reals => reals[factorColumn]? }

/-- Decodes `left` connection rows of a well, from row `row` on. -/
def decodeFrom (h : ReportHeader) (r : GridRecords) (well : Nat) (segmented : Bool) :
    (left row : Nat) → Except RecordError (List Connection)
  | 0, _ => .ok []
  | left + 1, row => do
    let c ← decode h r well row segmented
    return c :: (← decodeFrom h r well segmented left (row + 1))

/-- Decodes the connections that a well header announces, as far as a block has
rows. -/
def load (h : ReportHeader) (r : GridRecords) (w : WellHeader) (segmented : Bool) :
    Except RecordError (List Connection) :=
  decodeFrom h r w.well segmented (min w.connections h.maxConnections) 0

end Connection

end Wellbore
