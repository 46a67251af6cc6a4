import Wellbore.Case.Loading
import Wellbore.Json.Text

/-!
# Questions to an archive

Summaries of a well over the whole archive, of its topology at one moment, and of
its state at one moment, and how they are written.
-/

namespace Wellbore

/-- A well over the whole archive; kind and segmentation are those of its last
snapshot. -/
structure WellSummary where
  name : String
  snapshots : Nat
  firstReport : Int32
  lastReport : Int32
  kind : WellKind
  isSegmented : Bool
deriving DecidableEq, Repr

structure SegmentSummary where
  id : Int32
  outletId : Int32
  branchId : Int32
  depth : Float
  linkCount : Nat
  /-- How many connections of the global grid drain through it. -/
  globalConnections : Nat
deriving DecidableEq, Repr

/-- A branch of a topology, by segment numbers. -/
structure BranchSummary where
  branchId : Int32
  start : Int32
  members : List Int32
  junction : Option Int32
deriving DecidableEq, Repr

/-- The segments and branches of a well at one moment. -/
structure TopologySummary where
  well : String
  reportStep : Int32
  simTime : Instant
  segments : List SegmentSummary := []
  branches : List BranchSummary := []
deriving DecidableEq, Repr

/-- The connections of a well in one grid, counted. -/
structure GridSummary where
  grid : GridName
  wellhead : Option Cell
  connections : Nat
  openConnections : Nat
deriving DecidableEq, Repr

structure StateSummary where
  well : String
  reportStep : Int32
  simTime : Instant
  kind : WellKind
  isOpen : Bool
  isSegmented : Bool
  segments : Nat
  branches : Nat
  grids : List GridSummary
deriving DecidableEq, Repr

namespace Archive

/-- The wells of an archive, in the order of their names. -/
def summaries (a : Archive) : List WellSummary :=
  a.names.filterMap fun name => do
    let tl ← a.timeline? name
    let first ← tl.first?
    let last ← tl.last?
    return {
      name, snapshots := tl.size
      firstReport := first.reportStep, lastReport := last.reportStep
      kind := last.kind, isSegmented := last.isSegmented }

/-- The snapshot of a well at or before a moment. -/
def snapshot (a : Archive) (well : String) (key : TimeKey) : Except CaseError Snapshot :=
  match a.snapshotAt well key with
  | .error e => .error (.ofArchive e)
  | .ok none => .error (.noSnapshot well key)
  | .ok (some s) => .ok s

def latest (a : Archive) (well : String) : Except CaseError Snapshot :=
  match (a.timeline? well).bind Timeline.last? with
  | some s => .ok s
  | none => .error (.wellNotFound well)

end Archive

namespace Snapshot

/-- The segments of a table with their connections. -/
def segmentSummaries (s : Snapshot) (t : SegmentTable) : List SegmentSummary :=
  t.entries.map fun (slot, seg) => {
    id := seg.id, outletId := seg.outletId, branchId := seg.branchId
    depth := seg.reals.depth, linkCount := seg.linkCount
    globalConnections := (s.attachments.ofSegment slot .global).length }

/-- A branch by the numbers of its segments. -/
def branchSummary (t : SegmentTable) (b : Branch) : BranchSummary where
  branchId := b.branchId
  start := t.idAt b.start
  members := (b.walk t).map t.idAt
  junction := (b.junction? t).map t.idAt

/-- The topology of a snapshot, empty for a normal well. -/
def topology (s : Snapshot) : TopologySummary where
  well := s.name
  reportStep := s.reportStep
  simTime := s.simTime
  segments := (s.segments.map s.segmentSummaries).getD []
  branches := (s.segments.map fun t => s.branches.branches.map (branchSummary t)).getD []

def state (s : Snapshot) : StateSummary where
  well := s.name
  reportStep := s.reportStep
  simTime := s.simTime
  kind := s.kind
  isOpen := s.isOpen
  isSegmented := s.isSegmented
  segments := s.segmentCount
  branches := s.branches.length
  grids := s.connections.entries.map fun (grid, connections) => {
    grid, wellhead := s.wellheads.get? grid
    connections := connections.length
    openConnections := connections.countP Connection.isOpen }

end Snapshot

/-- A cell as a list of its three numbers. -/
def Cell.toJson (c : Cell) : Json := .arr [.nat c.i, .nat c.j, .nat c.k]

def WellSummary.toJson (w : WellSummary) : Json :=
  .obj [("name", .str w.name), ("snapshots", .nat w.snapshots),
    ("first_report", .word w.firstReport), ("last_report", .word w.lastReport),
    ("kind", .str w.kind.text), ("msw", .bool w.isSegmented)]

def SegmentSummary.toJson (s : SegmentSummary) : Json :=
  .obj [("id", .word s.id), ("outlet_id", .word s.outletId), ("branch_id", .word s.branchId),
    ("depth", .real s.depth), ("link_count", .nat s.linkCount),
    ("global_connections", .nat s.globalConnections)]

def BranchSummary.toJson (b : BranchSummary) : Json :=
  .obj [("branch_id", .word b.branchId), ("start_segment", .word b.start),
    ("members", Json.ofList .word b.members), ("junction", Json.ofOption .word b.junction)]

def TopologySummary.toJson (t : TopologySummary) : Json :=
  .obj [("well", .str t.well), ("report_step", .word t.reportStep),
    ("sim_time", .str t.simTime.text),
    ("segments", Json.ofList SegmentSummary.toJson t.segments),
    ("branches", Json.ofList BranchSummary.toJson t.branches)]

/-- Writes what a grid knows of a well. -/
def GridSummary.toJson (g : GridSummary) : Json :=
  .obj [("grid", .str g.grid.text), ("wellhead", Json.ofOption Cell.toJson g.wellhead),
    ("connections", .nat g.connections), ("open", .nat g.openConnections)]

def StateSummary.toJson (s : StateSummary) : Json :=
  .obj [("well", .str s.well), ("report_step", .word s.reportStep),
    ("sim_time", .str s.simTime.text), ("kind", .str s.kind.text), ("open", .bool s.isOpen),
    ("msw", .bool s.isSegmented), ("segments", .nat s.segments),
    ("branches", .nat s.branches), ("grids", Json.ofList GridSummary.toJson s.grids)]

end Wellbore
