import Wellbore.Restart.Records
import Wellbore.Grid.Dims

/-!
# Well headers

The row of a well says where its wellhead is, what kind of well it is, and
whether it is segmented. That row alone decides: segment rows that some other
record holds never make a well segmented.
-/

namespace Wellbore

/-- What a well does. -/
inductive WellKind where
  | producer
  | oilInjector
  | waterInjector
  | gasInjector
  /-- The simulator has not classified the well. -/
  | undefined
deriving DecidableEq, Repr, Inhabited

namespace WellKind

/-- The kind of a type code. -/
def ofCode (code : Int32) : WellKind :=
  if code = 1 then .producer
  else if code = 2 then .oilInjector
  else if code = 3 then .waterInjector
  else if code = 4 then .gasInjector
  else .undefined

/-- Whether the well puts something into the ground. -/
def isInjector : WellKind → Bool
  | .oilInjector | .waterInjector | .gasInjector => true
  | .producer | .undefined => false

def text : WellKind → String
  | .producer => "Producer"
  | .oilInjector => "OilInjector"
  | .waterInjector => "WaterInjector"
  | .gasInjector => "GasInjector"
  | .undefined => "Undefined"

end WellKind

/-- The row of a well in one grid, decoded. -/
structure WellHeader where
  name : String
  grid : GridName
  /-- Position in the well list of the grid. -/
  well : Nat
  wellhead : Cell
  connections : Nat
  kind : WellKind
  isOpen : Bool
  /-- The block of the segment records that belongs to the well, if it is segmented. -/
  segmentBlock : Option Nat
deriving DecidableEq, Repr, Inhabited

namespace WellHeader

/-- The columns of a well row. -/
def headIColumn : Nat := 0
def headJColumn : Nat := 1
def headKColumn : Nat := 2
def connectionsColumn : Nat := 4
def kindColumn : Nat := 6
def statusColumn : Nat := 10
def segmentBlockColumn : Nat := 70

/-- The block of a segmented well, counted from one; zero marks a normal well, and
so does a row that is too short to tell. -/
def segmentBlockOf (row : Array Int32) : Option Nat :=
  match row[segmentBlockColumn]? with
  | some raw => if raw = 0 then none else some (fromOne raw)
  | none => none

def decode (h : ReportHeader) (r : GridRecords) (well : Nat) :
    Except RecordError WellHeader := do
  let name ← r.wellName well
  let row ← r.wellRow h well
  let i ← fieldOf row .iwel headIColumn
  let j ← fieldOf row .iwel headJColumn
  let k ← fieldOf row .iwel headKColumn
  let connections ← fieldOf row .iwel connectionsColumn
  let kind ← fieldOf row .iwel kindColumn
  let status ← fieldOf row .iwel statusColumn
  return {
    name, grid := r.grid, well
    wellhead := ⟨fromOne i, fromOne j, fromOne k⟩
    connections := connections.toInt.toNat
    kind := WellKind.ofCode kind
    isOpen := 0 < status
    segmentBlock := segmentBlockOf row }

def isSegmented (w : WellHeader) : Bool := w.segmentBlock.isSome

end WellHeader

end Wellbore
