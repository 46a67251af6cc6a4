import Wellbore.Restart.Error
import Wellbore.Grid.Error

/-!
# What can be wrong with a well

Each cause makes the snapshot of one well at one report impossible.
-/

namespace Wellbore

/-- Why the topology of a well cannot be reconstructed. -/
inductive TopologyError where
  | duplicateSegmentId (segment : Int32)
  | unknownOutlet (segment outlet : Int32)
  | selfOutlet (segment : Int32)
  | inactiveOutlet (segment outlet : Int32)
  | outletCycle (segment : Int32) (limit : Nat)
  | unlinked (segment outlet : Int32)
  | branchWithoutStart (branch : Int32)
  | ambiguousBranchStart (branch first second : Int32)
  | unknownConnectionSegment (connection : Nat) (grid : GridName) (segment : Int32)
  | record (source : RecordError)
  | cell (source : GridError)
deriving DecidableEq

def TopologyError.message : TopologyError → String
  | .duplicateSegmentId segment => s!"Segment {segment.toInt} listed twice"
  | .unknownOutlet segment outlet =>
    s!"Segment {segment.toInt} has outlet {outlet.toInt}, which is not in the segment set"
  | .selfOutlet segment => s!"Segment {segment.toInt} names itself as outlet"
  | .inactiveOutlet segment outlet =>
    s!"Active segment {segment.toInt} drains into inactive segment {outlet.toInt}"
  | .outletCycle segment limit =>
    s!"Outlet chain from segment {segment.toInt} does not reach the wellhead"
      ++ s!" within {limit} steps"
  | .unlinked segment outlet =>
    s!"Segment {segment.toInt} has not been linked to its outlet {outlet.toInt}"
  | .branchWithoutStart branch => s!"Branch {branch.toInt} has no start segment"
  | .ambiguousBranchStart branch first second =>
    s!"Branch {branch.toInt} forks: chains from segments {first.toInt}"
      ++ s!" and {second.toInt} merge"
  | .unknownConnectionSegment connection grid segment =>
    s!"Connection {connection} in grid {grid.text}"
      ++ s!" refers to unknown segment {segment.toInt}"
  | .record source => "Restart data: " ++ source.message
  | .cell source => "Grid: " ++ source.message

end Wellbore
