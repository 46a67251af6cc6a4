import Wellbore.Slot
import Wellbore.Restart.SegmentReals

/-!
# Segments

A segmented well is modelled as lengths of tubing. Each drains into another one,
its outlet, or straight into the wellhead. A report names the outlet by its
number; the link to it is made later and is kept as a position in the same table.
-/

namespace Wellbore

/-- The outlet number of a segment that drains into the wellhead. -/
def wellheadOutlet : Int32 := 0

/-- The branch number of the main bore. -/
def mainStem : Int32 := 1

/-- The branch number of a row that is not in use. -/
def inactiveBranch : Int32 := 0

/-- A segment as a report has it. -/
structure SegmentRow where
  /-- The number of the segment, unique within the well. -/
  id : Int32
  /-- The number of the segment it drains into. -/
  outletId : Int32
  branchId : Int32
  reals : SegmentReals := {}
deriving DecidableEq, Repr, Inhabited

/-- One length of a segmented well. -/
structure Segment extends SegmentRow where
  /-- Where the outlet stands, once it has been linked. -/
  outlet : Option Slot := none
  /-- How many segments have been linked to this one as their outlet. -/
  linkCount : Nat := 0
deriving DecidableEq, Repr, Inhabited

/-- The segment of a row, which nothing has been linked to yet. -/
def SegmentRow.segment (r : SegmentRow) : Segment := { r with }

namespace Segment

def active (s : Segment) : Bool := s.branchId != inactiveBranch

/-- Whether the segment lies on the main bore. -/
def onMainStem (s : Segment) : Bool := s.branchId == mainStem

/-- Whether the segment drains into the wellhead. -/
def nearestWellhead (s : Segment) : Bool := s.outletId == wellheadOutlet

/-- Whether `candidate` is the segment that `s` drains into. -/
def accepts (s candidate : Segment) : Bool :=
  candidate.id == s.outletId && candidate.id != s.id

end Segment

end Wellbore
