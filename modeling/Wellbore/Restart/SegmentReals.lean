import Wellbore.Restart.Records

/-!
# The reals of a segment

One reader serves all segmented wells of a report. It keeps the values it read
last, and a row that turns out to be bad half way leaves them half replaced; no
answer ever shows what was kept, because a good row replaces all of it.
-/

namespace Wellbore

/-- Position and size of a segment along its tubing. -/
structure SegmentReals where
  depth : Float := 0
  length : Float := 0
  totalLength : Float := 0
  diameter : Float := 0
deriving DecidableEq, Repr, Inhabited

namespace SegmentReals

/-- The columns of a row of segment reals. -/
def lengthColumn : Nat := 0
def diameterColumn : Nat := 2
def totalLengthColumn : Nat := 6
def depthColumn : Nat := 7

end SegmentReals

/-- A column of the segment reals: where it stands, what it is called, and which
value it sets. -/
structure RealColumn where
  index : Nat
  what : String
  store : Float → SegmentReals → SegmentReals

namespace RealColumn

/-- The columns in the order in which they are read. -/
def all : List RealColumn := [
  ⟨SegmentReals.depthColumn, "RSEG depth", fun x v => { v with depth := x }⟩,
  ⟨SegmentReals.lengthColumn, "RSEG length", fun x v => { v with length := x }⟩,
  ⟨SegmentReals.totalLengthColumn, "RSEG total length",
    fun x v => { v with totalLength := x }⟩,
  ⟨SegmentReals.diameterColumn, "RSEG diameter", fun x v => { v with diameter := x }⟩]

/-- The value of a column, which must be there and be finite. -/
def value (c : RealColumn) (row : Array Float) : Except RecordError Float := do
  let raw ← fieldOf row .rseg c.index
  match requireFinite c.what raw with
  | .ok x => return x
  | .error e => throw (.badValue .rseg e)

/-- Replaces the values of the given columns up to the first that is bad. -/
def fill (row : Array Float) :
    List RealColumn → SegmentReals → Except RecordError Unit × SegmentReals
  | [], held => (.ok (), held)
  | c :: rest, held =>
    match c.value row with
    | .ok x => fill row rest (c.store x held)
    | .error e => (.error e, held)

end RealColumn

/-- Reads the reals of segments out of the records of a grid. -/
structure RealsReader where
  header : ReportHeader
  records : GridRecords
  /-- What was read last. -/
  held : SegmentReals := {}

namespace RealsReader

/-- Reads one row; `well` is the well it is wanted for. -/
def read (r : RealsReader) (well block row : Nat) :
    Except RecordError SegmentReals × RealsReader :=
  match r.records.segmentReals r.header well block row with
  | .error e => (.error e, r)
  | .ok values =>
    match RealColumn.fill values RealColumn.all r.held with
    | (.ok (), held) => (.ok held, { r with held })
    | (.error e, held) => (.error e, { r with held })

end RealsReader

end Wellbore
