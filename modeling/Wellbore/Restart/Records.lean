import Wellbore.Restart.Error
import Wellbore.Restart.Header
import Wellbore.Grid.Description

/-!
# The records of one grid

Every grid has its own list of wells, and well and connection records in its own
cell numbers. Segment records come with the global grid only, and any of the
optional records may be missing.
-/

namespace Wellbore

/-- Cuts the row that starts at `start` out of a record. -/
def rowOf {α : Type} (record : Array α) (keyword : Keyword) (start : Option Nat)
    (width : Nat) : Except RecordError (Array α) :=
  match start with
  | none => .error (.recordTooShort keyword beyond record.size)
  | some start =>
    match address? (start + width) with
    | none => .error (.recordTooShort keyword beyond record.size)
    | some stop =>
      if stop ≤ record.size then .ok (record.extract start stop)
      else .error (.recordTooShort keyword (stop - 1) record.size)

def fieldOf {α : Type} (row : Array α) (keyword : Keyword) (column : Nat) :
    Except RecordError α :=
  match row[column]? with
  | some value => .ok value
  | none => .error (.recordTooShort keyword column row.size)

/-- A number counted from one in a record, counted from zero; what is not positive
becomes zero. -/
def fromOne (v : Int32) : Nat := (v - 1).toInt.toNat

structure GridRecords where
  grid : GridName
  wellNames : List String
  iwel : Array Int32
  icon : Array Int32
  scon : Option (Array Float) := none
  iseg : Option (Array Int32) := none
  rseg : Option (Array Float) := none
deriving DecidableEq, Inhabited

namespace GridRecords

def wells (r : GridRecords) : Nat := r.wellNames.length

/-- The first well of a name. -/
def findWell? (r : GridRecords) (name : String) : Option Nat :=
  r.wellNames.findIdx? fun n => n == name

/-- The name of a well of this grid. -/
def wellName (r : GridRecords) (well : Nat) : Except RecordError String :=
  match r.wellNames[well]? with
  | some name => .ok name
  | none => .error (.wellOutOfRange r.grid well r.wells)

def wellRow (r : GridRecords) (h : ReportHeader) (well : Nat) :
    Except RecordError (Array Int32) := do
  let _ ← r.wellName well
  rowOf r.iwel .iwel (h.wellStart? well) h.wellWidth

def connectionRow (r : GridRecords) (h : ReportHeader) (well row : Nat) :
    Except RecordError (Array Int32) := do
  let _ ← r.wellName well
  rowOf r.icon .icon (h.connectionStart? well row) h.connectionWidth

/-- The reals of a connection, where the grid has them. -/
def connectionReals (r : GridRecords) (h : ReportHeader) (well row : Nat) :
    Except RecordError (Option (Array Float)) := do
  let _ ← r.wellName well
  match r.scon with
  | none => return none
  | some scon =>
    return some (← rowOf scon .scon (h.connectionRealStart? well row) h.connectionRealWidth)

/-- The whole record of segment integers; `well` is the one it is wanted for. -/
def segmentRecord (r : GridRecords) (well : Nat) : Except RecordError (Array Int32) :=
  match r.iseg with
  | some iseg => .ok iseg
  | none => .error (.missingRecord .iseg r.grid well)

/-- The whole record of segment reals; `well` is the one it is wanted for. -/
def segmentRealRecord (r : GridRecords) (well : Nat) : Except RecordError (Array Float) :=
  match r.rseg with
  | some rseg => .ok rseg
  | none => .error (.missingRecord .rseg r.grid well)

def segmentRow (r : GridRecords) (h : ReportHeader) (well block row : Nat) :
    Except RecordError (Array Int32) := do
  rowOf (← r.segmentRecord well) .iseg (h.segmentStart? block row) h.segmentWidth

def segmentReals (r : GridRecords) (h : ReportHeader) (well block row : Nat) :
    Except RecordError (Array Float) := do
  rowOf (← r.segmentRealRecord well) .rseg (h.segmentRealStart? block row) h.segmentRealWidth

def fieldNames : List String :=
  ["grid", "well_names", "iwel", "icon", "scon", "iseg", "rseg"]

def integers? (v : Json) : Option (Array Int32) :=
  (Document.listOf? Document.integer? v).map List.toArray

def reals? (v : Json) : Option (Array Float) :=
  (Document.listOf? Document.real? v).map List.toArray

def read? (v : Json) : Option GridRecords := do
  match ← Document.alignedTo fieldNames v with
  | [grid, names, iwel, icon, scon, iseg, rseg] =>
    let grid ← Document.required GridName.read? grid
    let names ← Document.required (Document.listOf? Document.text?) names
    let iwel ← Document.required integers? iwel
    let icon ← Document.required integers? icon
    let scon ← Document.optional reals? scon
    let iseg ← Document.optional integers? iseg
    let rseg ← Document.optional reals? rseg
    return ⟨grid, names, iwel, icon, scon, iseg, rseg⟩
  | _ => none

/-- Writes the records of a grid; what is absent is left out. -/
def toJson (r : GridRecords) : Json :=
  let integers (xs : Array Int32) := Json.ofList Json.word xs.toList
  let reals (xs : Array Float) := Json.ofList Json.real xs.toList
  .obj ([("grid", .str r.grid.text), ("well_names", Json.ofList .str r.wellNames),
      ("iwel", integers r.iwel), ("icon", integers r.icon)]
    ++ (r.scon.toList.map fun xs => ("scon", reals xs))
    ++ (r.iseg.toList.map fun xs => ("iseg", integers xs))
    ++ (r.rseg.toList.map fun xs => ("rseg", reals xs)))

end GridRecords

end Wellbore
