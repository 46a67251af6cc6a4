import Wellbore.Connection.Basic
import Wellbore.Segment.Table
import Wellbore.Grid.Catalog
import Wellbore.SortedMap

/-!
# What a connection drains through

Each connection of a segmented well belongs to the segment it names, each
connection of a normal well to the main bore. `Attachments` keeps the resolved
connections by grid, and beside that the connection numbers by owner and grid, so
that both questions are answered without a search. The two are filled together
and always agree.

Attaching stops at the first connection that cannot be resolved; what came before
it stays attached.
-/

namespace Wellbore

/-- What a connection drains through. -/
inductive Owner where
  | segment (slot : Slot)
  /-- The one bore of a normal well. -/
  | mainBore
deriving DecidableEq, Repr, Inhabited

/-- A connection with its owner and its cell numbers. -/
structure Attachment where
  /-- Position in the connections of its grid. -/
  connection : Nat
  owner : Owner
  /-- The number of the cell in its own grid, if the grids are known. -/
  cellIndex : Option Nat
  /-- The active number of the cell, if the grids are known and it has one. -/
  activeIndex : Option Nat
deriving DecidableEq, Repr, Inhabited

/-- The resolved connections of one well. -/
structure Attachments where
  byGrid : SortedMap GridName (List Attachment) := {}
  byOwner : List ((Owner × GridName) × List Nat) := []
deriving DecidableEq, Inhabited

/-- Appends a value to the list of a key, which begins empty. -/
def appendAt {κ α : Type} [DecidableEq κ] (k : κ) (a : α) :
    List (κ × List α) → List (κ × List α)
  | [] => [(k, [a])]
  | (k', as) :: rest =>
    if k' = k then (k', as ++ [a]) :: rest else (k', as) :: appendAt k a rest

namespace Attachments

/-- Records one resolved connection in both places. -/
def add (as : Attachments) (grid : GridName) (a : Attachment) : Attachments where
  byGrid := as.byGrid.update grid fun list => list.getD [] ++ [a]
  byOwner := appendAt (a.owner, grid) a.connection as.byOwner

/-- The owner of a connection: with a table the segment it names, zero if it names
none. -/
def ownerOf (segments : Option SegmentTable) (number : Nat) (c : Connection) :
    Except TopologyError Owner :=
  match segments with
  | none => .ok .mainBore
  | some t =>
    let id := c.segmentId.getD 0
    match t.slotOf? id with
    | some slot => .ok (.segment slot)
    | none => .error (.unknownConnectionSegment number c.grid id)

/-- The numbers of a cell in its own grid, as far as the grids are known. -/
def cellOf (catalog : Option GridCatalog) (c : Connection) :
    Except TopologyError (Option Nat × Option Nat) :=
  match catalog with
  | none => .ok (none, none)
  | some grids =>
    match grids.indexOf c.grid c.cell with
    | .ok n => .ok (some n, grids.activeNumber? c.grid n)
    | .error e => .error (.cell e)

def resolve (segments : Option SegmentTable) (catalog : Option GridCatalog)
    (number : Nat) (c : Connection) : Except TopologyError Attachment := do
  let owner ← ownerOf segments number c
  let (cellIndex, activeIndex) ← cellOf catalog c
  return ⟨number, owner, cellIndex, activeIndex⟩

/-- Attaches connections whose numbers begin with `number`. -/
def attachFrom (segments : Option SegmentTable) (catalog : Option GridCatalog) :
    (number : Nat) → List Connection → Attachments →
    Except TopologyError Unit × Attachments
  | _, [], as => (.ok (), as)
  | number, c :: rest, as =>
    match resolve segments catalog number c with
    | .ok a => attachFrom segments catalog (number + 1) rest (as.add c.grid a)
    | .error e => (.error e, as)

/-- Attaches connections, numbered by their positions: how it ended, and what is
attached then. -/
def attach (as : Attachments) (segments : Option SegmentTable)
    (connections : List Connection) (catalog : Option GridCatalog) :
    Except TopologyError Unit × Attachments :=
  attachFrom segments catalog 0 connections as

def inGrid (as : Attachments) (grid : GridName) : List Attachment :=
  (as.byGrid.get? grid).getD []

def grids (as : Attachments) : List GridName := as.byGrid.keys

/-- The connections of a grid that an owner has. -/
def ownedBy (as : Attachments) (owner : Owner) (grid : GridName) : List Nat :=
  (as.byOwner.lookup (owner, grid)).getD []

/-- The connections of a grid that drain through a segment. -/
def ofSegment (as : Attachments) (slot : Slot) (grid : GridName) : List Nat :=
  as.ownedBy (.segment slot) grid

/-- The connections of a grid that drain through the main bore. -/
def ofMainBore (as : Attachments) (grid : GridName) : List Nat := as.ownedBy .mainBore grid

/-- The connections of a grid whose segments have a branch number. -/
def ofBranch (as : Attachments) (t : SegmentTable) (branchId : Int32) (grid : GridName) :
    List Nat :=
  (as.inGrid grid).filterMap fun a =>
    match a.owner with
    | .segment slot =>
      if (t.get? slot).any fun s => s.branchId == branchId then some a.connection else none
    | .mainBore => none

end Attachments

end Wellbore
