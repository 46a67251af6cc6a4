import Wellbore.Case.Summary
import Wellbore.Decimal.Text

/-!
# Summaries for readers

The lines in which the command line shows a summary. Columns are padded with
blanks and never cut, and cells are counted from one, as reports count them.
-/

namespace Wellbore

/-- A text with blanks before it, at least `width` wide. -/
def alignRight (width : Nat) (text : String) : String :=
  "".pushn ' ' (width - text.length) ++ text

/-- A text with blanks after it, at least `width` wide. -/
def alignLeft (width : Nat) (text : String) : String :=
  text.pushn ' ' (width - text.length)

def wordText (n : Int32) : String := toString n.toInt

/-- A cell counted from one. -/
def Cell.text (c : Cell) : String := s!"({c.i + 1}, {c.j + 1}, {c.k + 1})"

def WellSummary.line (w : WellSummary) : String :=
  let segmented := if w.isSegmented then ", multi-segment" else ""
  s!"  {w.name} - {w.kind.text}{segmented} ({w.snapshots} snapshots, reports "
    ++ s!"{wordText w.firstReport}..={wordText w.lastReport})"

/-- The wells of a case that some reports had to skip. -/
def ReportOutcome.lines (o : ReportOutcome) : List String :=
  o.skipped.map fun (well, reason) =>
    s!"  ! {well} skipped at report {wordText o.reportStep}: {reason.message}"

/-- Which well at which report the lines below are about. -/
def headline (well : String) (reportStep : Int32) (simTime : Instant) : String :=
  s!"Well {well} at report {wordText reportStep} ({simTime.displayText})"

/-- A segment as a row of a table. -/
def SegmentSummary.line (s : SegmentSummary) : String :=
  "    " ++ alignRight 4 (wordText s.id) ++ " -> " ++ alignLeft 4 (wordText s.outletId)
    ++ " branch " ++ alignLeft 3 (wordText s.branchId)
    ++ " depth " ++ alignRight 10 (Decimal.fixedText 2 s.depth)
    ++ s!"  links {s.linkCount}  connections {s.globalConnections}"

/-- A branch as a row of a table. -/
def BranchSummary.line (b : BranchSummary) : String :=
  "    " ++ alignRight 3 (wordText b.branchId) ++ ": "
    ++ " -> ".intercalate (b.members.map wordText)
    ++ match b.junction with
      | some j => " -> junction " ++ wordText j
      | none => ""

/-- A topology; a normal well has none. -/
def TopologySummary.lines (t : TopologySummary) (segmented : Bool) : List String :=
  let head := headline t.well t.reportStep t.simTime
  if segmented then
    [head, "  Segments:"] ++ t.segments.map SegmentSummary.line
      ++ ["  Branches:"] ++ t.branches.map BranchSummary.line
  else [head, "  Normal well: no segment topology"]

/-- What a grid knows of a well. -/
def GridSummary.line (g : GridSummary) : String :=
  let head := match g.wellhead with
    | some cell => cell.text
    | none => "-"
  s!"  Grid {g.grid.text}: wellhead {head}, {g.connections} connections"
    ++ s!" ({g.openConnections} open)"

def StateSummary.lines (s : StateSummary) : List String :=
  [headline s.well s.reportStep s.simTime,
    s!"  Kind: {s.kind.text}, " ++ (if s.isOpen then "open" else "shut"),
    s!"  Segments: {s.segments}, branches: {s.branches}"]
  ++ s.grids.map GridSummary.line

end Wellbore
