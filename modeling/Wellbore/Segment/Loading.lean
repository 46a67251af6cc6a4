import Wellbore.Segment.Table
import Wellbore.Restart.WellHeader

/-!
# Reading a segment table

The header of a well says whether it is segmented. A normal well has no table,
whatever the segment records hold. For a segmented well every row of its block
becomes a segment, numbered by its row counted from one; rows that are not in use
are inactive segments.
-/

namespace Wellbore

namespace Segment

/-- The columns of a segment row. -/
def outletColumn : Nat := 1
def branchColumn : Nat := 3

/-- The outlet and the branch in one row of a block. -/
def linksOfRow (h : ReportHeader) (r : GridRecords) (well block row : Nat) :
    Except RecordError (Int32 × Int32) := do
  let ints ← r.segmentRow h well block row
  let outlet ← fieldOf ints .iseg outletColumn
  let branch ← fieldOf ints .iseg branchColumn
  return (outlet, branch)

/-- The number of the segment in a row. -/
def idOfRow (row : Nat) : Int32 := Int32.ofNat row + 1

end Segment

namespace SegmentTable

/-- Reads `left` rows of a block from row `row` on into a table. -/
def readRows (well block : Nat) :
    (left row : Nat) → SegmentTable → RealsReader →
    Except TopologyError SegmentTable × RealsReader
  | 0, _, t, r => (.ok t, r)
  | left + 1, row, t, r =>
    match Segment.linksOfRow r.header r.records well block row with
    | .error e => (.error (.record e), r)
    | .ok (outletId, branchId) =>
      match r.read well block row with
      | (.error e, r) => (.error (.record e), r)
      | (.ok reals, r) =>
        match t.insert (SegmentRow.segment ⟨Segment.idOfRow row, outletId, branchId, reals⟩) with
        | (.error e, _) => (.error e, r)
        | (.ok _, t) => readRows well block left (row + 1) t r

/-- Reads the table of a well, not yet linked; none for a normal well. -/
def load (r : RealsReader) (well : Nat) :
    Except TopologyError (Option SegmentTable) × RealsReader :=
  match WellHeader.decode r.header r.records well with
  | .error e => (.error (.record e), r)
  | .ok header =>
    match header.segmentBlock with
    | none => (.ok none, r)
    | some block =>
      match r.records.segmentRecord well with
      | .error e => (.error (.record e), r)
      | .ok _ =>
        match readRows well block r.header.maxSegments 0 {} r with
        | (.error e, r) => (.error e, r)
        | (.ok t, r) => (.ok (some t), r)

end SegmentTable

end Wellbore
