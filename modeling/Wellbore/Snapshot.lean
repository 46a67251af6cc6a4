import Wellbore.Branch
import Wellbore.Connection.Attachments

/-!
# Snapshots

What is known of one well at one report. A normal well has no segment table and
no branches, and its connections belong to the main bore.
-/

namespace Wellbore

structure Snapshot where
  name : String
  reportStep : Int32
  simTime : Instant
  kind : WellKind
  isOpen : Bool
  /-- The wellhead in every grid that has the well, and in the global one. -/
  wellheads : SortedMap GridName Cell := {}
  segments : Option SegmentTable := none
  branches : BranchList := {}
  /-- The connections in every grid that has the well. -/
  connections : SortedMap GridName (List Connection) := {}
  attachments : Attachments := {}
deriving DecidableEq, Inhabited

namespace Snapshot

/-- The snapshot that a well header alone gives. -/
def ofHeader (h : ReportHeader) (w : WellHeader) : Snapshot where
  name := w.name
  reportStep := h.reportStep
  simTime := h.simTime
  kind := w.kind
  isOpen := w.isOpen
  wellheads := SortedMap.insert {} w.grid w.wellhead

/-- Whether the well has a segment table. -/
def isSegmented (s : Snapshot) : Bool := s.segments.isSome

/-- The number of segments, zero for a normal well. -/
def segmentCount (s : Snapshot) : Nat := (s.segments.map SegmentTable.size).getD 0

/-- The grids in which the well has connections, in order. -/
def grids (s : Snapshot) : List GridName := s.connections.keys

/-- Adds what one more grid knows of the well; a later entry for a grid replaces an
earlier one. -/
def addGrid (s : Snapshot) (grid : GridName) (wellhead : Cell)
    (connections : List Connection) : Snapshot :=
  { s with
    wellheads := s.wellheads.insert grid wellhead
    connections := s.connections.insert grid connections }

end Snapshot

end Wellbore
