import Wellbore.Restart.Records
import Wellbore.Json.Reader

/-!
# Restart reports

A report is a header and the records of each grid. Nothing stops a report from
listing a grid twice; a grid is always the first of its name.
-/

namespace Wellbore

/-- The state of a simulation at one report step. -/
structure Report where
  header : ReportHeader
  grids : List GridRecords
deriving DecidableEq, Inhabited

namespace Report

def grid (r : Report) (name : GridName) : Except RecordError GridRecords :=
  match r.grids.find? fun g => g.grid = name with
  | some g => .ok g
  | none => .error (.unknownGrid name)

def globalGrid (r : Report) : Except RecordError GridRecords := r.grid .global

def refinements (r : Report) : List GridRecords := r.grids.filter fun g => !g.grid.isGlobal

/-- The number of wells in the global grid, zero without one. -/
def wells (r : Report) : Nat :=
  match r.globalGrid with
  | .ok g => g.wells
  | .error _ => 0

def fieldNames : List String := ["header", "grids"]

def read? (v : Json) : Option Report := do
  match ← Document.alignedTo fieldNames v with
  | [header, grids] =>
    let header ← Document.required ReportHeader.read? header
    let grids ← Document.required (Document.listOf? GridRecords.read?) grids
    return ⟨header, grids⟩
  | _ => none

def parse (text : String) : Except RecordError Report :=
  match (Json.parse? text).bind read? with
  | some r => .ok r
  | none => .error .malformed

def toJson (r : Report) : Json :=
  .obj [("header", r.header.toJson), ("grids", Json.ofList GridRecords.toJson r.grids)]

end Report

end Wellbore
