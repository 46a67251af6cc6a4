import Wellbore.Restart.Report
import Wellbore.Connection.Basic
import Wellbore.Segment.Loading

/-!
# Laying out records

A plan says what a report is about in plain terms, and `ReportPlan.report?` writes
the records that say the same. Every record begins as zeros and is as long as the
wells of its grid need; then one well after the other writes its rows at the
addresses from which they will be read. Reading the records of a planned report
gives the plan back.
-/

namespace Wellbore

/-- A segment of a planned well; its number is its position, counted from one. -/
structure SegmentPlan where
  outlet : Int32
  branch : Int32
  depth : Float := 0
  length : Float := 0
  totalLength : Float := 0
  diameter : Float := 0
deriving DecidableEq, Inhabited

/-- A connection of a planned well, its cell counted from one. -/
structure ConnectionPlan where
  i : Int32
  j : Int32
  k : Int32
  isOpen : Bool := true
  direction : Int32 := 3
  segment : Int32 := 0
  factor : Float := 1
deriving DecidableEq, Inhabited

/-- A planned well, its wellhead counted from one. -/
structure WellPlan where
  name : String
  headI : Int32 := 1
  headJ : Int32 := 1
  headK : Int32 := 1
  kind : Int32 := 1
  isOpen : Bool := true
  /-- Whether the well header announces the segments. -/
  segmented : Bool := false
  connections : List ConnectionPlan := []
  segments : List SegmentPlan := []
deriving DecidableEq, Inhabited

structure ReportPlan where
  reportStep : Int32
  simTime : Instant
  wells : List WellPlan := []
  refinements : List (GridName × List WellPlan) := []
  /-- Leaves the segment records out. -/
  omitSegments : Bool := false
deriving DecidableEq, Inhabited

/-- The most bytes that a record can take. -/
def mostBytes : Nat := Int64.maxValue.toInt.toNat

section
variable {α : Type}

/-- A record of equal values of some bytes each, if it can be had. -/
def blankRecord? (value : α) (bytes count : Nat) : Option (Array α) :=
  if count * bytes ≤ mostBytes then some (Array.replicate count value) else none

/-- Writes values into the row that begins at `start`, each in its column; none if one
of them lies outside the record. -/
def writeFrom? (start : Nat) : List (Nat × α) → Array α → Option (Array α)
  | [], record => some record
  | (column, a) :: rest, record =>
    if h : start + column < record.size then
      writeFrom? start rest (record.set (start + column) a h)
    else none

/-- Writes rows, numbered from `row` on, at the addresses given for them. -/
def writeRows? (start? : Nat → Option Nat) :
    (row : Nat) → List (List (Nat × α)) → Array α → Option (Array α)
  | _, [], record => some record
  | row, values :: rest, record => do
    writeRows? start? (row + 1) rest (← writeFrom? (← start? row) values record)

end

def flagWord (b : Bool) : Int32 := if b then 1 else 0

namespace SegmentPlan

/-- The integers of a segment, by column. -/
def ints (s : SegmentPlan) : List (Nat × Int32) :=
  [(Segment.outletColumn, s.outlet), (Segment.branchColumn, s.branch)]

def reals (s : SegmentPlan) : List (Nat × Float) :=
  [(SegmentReals.depthColumn, s.depth), (SegmentReals.lengthColumn, s.length),
    (SegmentReals.totalLengthColumn, s.totalLength),
    (SegmentReals.diameterColumn, s.diameter)]

end SegmentPlan

namespace ConnectionPlan

/-- The integers of the connection at a position of its well, by column. -/
def ints (position : Nat) (c : ConnectionPlan) : List (Nat × Int32) :=
  [(Connection.numberColumn, Int32.ofNat position + 1), (Connection.iColumn, c.i),
    (Connection.jColumn, c.j), (Connection.kColumn, c.k),
    (Connection.statusColumn, flagWord c.isOpen), (Connection.directionColumn, c.direction),
    (Connection.segmentColumn, c.segment)]

def reals (c : ConnectionPlan) : List (Nat × Float) := [(Connection.factorColumn, c.factor)]

end ConnectionPlan

namespace WellPlan

/-- The integers of a well that do not depend on other wells, by column. -/
def ints (w : WellPlan) : List (Nat × Int32) :=
  [(WellHeader.headIColumn, w.headI), (WellHeader.headJColumn, w.headJ),
    (WellHeader.headKColumn, w.headK),
    (WellHeader.connectionsColumn, Int32.ofNat w.connections.length),
    (WellHeader.kindColumn, w.kind), (WellHeader.statusColumn, flagWord w.isOpen)]

/-- The announcement of the segments in block `block`, by column. -/
def announcement (w : WellPlan) (block : Nat) : List (Nat × Int32) :=
  if w.segmented then [(WellHeader.segmentBlockColumn, Int32.ofNat block + 1)] else []

/-- Whether the well has rows in the segment records, announced or not. -/
def hasSegments (w : WellPlan) : Bool := !w.segments.isEmpty

end WellPlan

/-- The records of one grid while they are written. -/
structure Sheets where
  iwel : Array Int32
  icon : Array Int32
  scon : Array Float
  iseg : Array Int32
  rseg : Array Float
  /-- How many of the wells written so far have segments. -/
  blocks : Nat := 0

namespace Sheets

/-- The records of `wells` wells before anything is written. -/
def blank? (h : ReportHeader) (wells segmented : Nat) : Option Sheets := do
  let iwel ← blankRecord? 0 4 (wells * h.wellWidth)
  let icon ← blankRecord? 0 4 (wells * h.maxConnections * h.connectionWidth)
  let scon ← blankRecord? 0 8 (wells * h.maxConnections * h.connectionRealWidth)
  let iseg ← blankRecord? 0 4 (segmented * h.maxSegments * h.segmentWidth)
  let rseg ← blankRecord? 0 8 (segmented * h.maxSegments * h.segmentRealWidth)
  return { iwel, icon, scon, iseg, rseg }

/-- Writes the segments of a well into the next free block. -/
def writeSegments? (h : ReportHeader) (well : Nat) (w : WellPlan) (s : Sheets) :
    Option Sheets :=
  match s with
  | ⟨iwel, icon, scon, iseg, rseg, block⟩ => do
    let iwel ← writeFrom? (← h.wellStart? well) (w.announcement block) iwel
    let iseg ← writeRows? (h.segmentStart? block) 0 (w.segments.map SegmentPlan.ints) iseg
    let rseg ← writeRows? (h.segmentRealStart? block) 0 (w.segments.map SegmentPlan.reals) rseg
    return ⟨iwel, icon, scon, iseg, rseg, block + 1⟩

def writeWell? (h : ReportHeader) (well : Nat) (w : WellPlan) (s : Sheets) :
    Option Sheets :=
  match s with
  | ⟨iwel, icon, scon, iseg, rseg, block⟩ => do
    let iwel ← writeFrom? (← h.wellStart? well) w.ints iwel
    let icon ← writeRows? (h.connectionStart? well) 0
      (w.connections.mapIdx ConnectionPlan.ints) icon
    let scon ← writeRows? (h.connectionRealStart? well) 0
      (w.connections.map ConnectionPlan.reals) scon
    let s : Sheets := ⟨iwel, icon, scon, iseg, rseg, block⟩
    if w.hasSegments then s.writeSegments? h well w else some s

/-- Writes wells, numbered from `well` on. -/
def writeWells? (h : ReportHeader) : (well : Nat) → List WellPlan → Sheets → Option Sheets
  | _, [], s => some s
  | well, w :: rest, s => do writeWells? h (well + 1) rest (← s.writeWell? h well w)

end Sheets

namespace ReportPlan

/-- All wells, those of the global grid first. -/
def allWells (p : ReportPlan) : List WellPlan :=
  p.wells ++ p.refinements.flatMap (·.2)

/-- The largest of some counts, at least one. -/
def largest (counts : List Nat) : Nat := counts.foldl max 1

/-- The header of the planned report. A row is as wide as its last column asks. -/
def header (p : ReportPlan) : ReportHeader where
  reportStep := p.reportStep
  simTime := p.simTime
  wellWidth := WellHeader.segmentBlockColumn + 1
  maxSegments := largest (p.allWells.map fun w => w.segments.length)
  segmentWidth := Segment.branchColumn + 1
  segmentRealWidth := SegmentReals.depthColumn + 1
  maxConnections := largest (p.allWells.map fun w => w.connections.length)
  connectionWidth := Connection.segmentColumn + 1
  connectionRealWidth := Connection.factorColumn + 1

/-- The records of one grid; `hasSegments` says whether its segments are kept. -/
def records? (h : ReportHeader) (grid : GridName) (wells : List WellPlan)
    (hasSegments : Bool) : Option GridRecords := do
  let segmented := wells.countP WellPlan.hasSegments
  let s ← (← Sheets.blank? h wells.length segmented).writeWells? h 0 wells
  let kept := hasSegments && 0 < segmented
  return {
    grid
    wellNames := wells.map (·.name)
    iwel := s.iwel
    icon := s.icon
    scon := some s.scon
    iseg := if kept then some s.iseg else none
    rseg := if kept then some s.rseg else none }

/-- The report that says what the plan says, if memory can hold its records. -/
def report? (p : ReportPlan) : Option Report := do
  let globalGrid ← records? p.header .global p.wells (!p.omitSegments)
  let refinements ← p.refinements.mapM fun r => records? p.header r.1 r.2 false
  return ⟨p.header, globalGrid :: refinements⟩

/-- The planned report; one that memory cannot hold has no grids. -/
def report (p : ReportPlan) : Report := p.report?.getD ⟨p.header, []⟩

end ReportPlan

end Wellbore
