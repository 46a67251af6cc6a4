import Wellbore.Snapshot
import Wellbore.Segment.Loading
import Wellbore.Restart.Report
import Wellbore.LoadOptions

/-!
# Reconstructing a well

From the records of a report to the snapshot of one of its wells: the segments
and branches from the global grid, then the connections from every grid that
lists a well of the same name.

The reader of segment reals is handed through, so that one reader can serve all
wells of a report.
-/

namespace Wellbore

/-- The cause that a failed link reports. -/
def LinkFailure.cause (t : SegmentTable) : LinkFailure → TopologyError
  | .topology e => e
  | .refused segment candidate => .unlinked (t.idAt segment) (t.idAt candidate)

namespace Report

/-- The linked segment table of a well and its branches, as far as they are wanted. -/
def topologyOf (reader : RealsReader) (options : LoadOptions) (well : Nat) :
    Except TopologyError (Option (SegmentTable × BranchList)) × RealsReader :=
  if !options.segments then (.ok none, reader)
  else
    match SegmentTable.load reader well with
    | (.error e, reader) => (.error e, reader)
    | (.ok none, reader) => (.ok none, reader)
    | (.ok (some t), reader) =>
      match t.linkAll with
      | (.error e, t) => (.error (e.cause t), reader)
      | (.ok _, t) =>
        if !options.branches then (.ok (some (t, {})), reader)
        else
          match t.decompose with
          | .error e => (.error e, reader)
          | .ok branches => (.ok (some (t, branches)), reader)

/-- Adds to a snapshot what each of the given grids knows of the well. -/
def addGrids (h : ReportHeader) (catalog : Option GridCatalog) :
    List GridRecords → Snapshot → Except TopologyError Snapshot
  | [], s => .ok s
  | r :: rest, s =>
    match r.findWell? s.name with
    | none => addGrids h catalog rest s
    | some well =>
      match WellHeader.decode h r well with
      | .error e => .error (.record e)
      | .ok w =>
        match Connection.load h r w s.isSegmented with
        | .error e => .error (.record e)
        | .ok connections =>
          match s.attachments.attach s.segments connections catalog with
          | (.error e, _) => .error e
          | (.ok (), attachments) =>
            addGrids h catalog rest
              { s.addGrid r.grid w.wellhead connections with attachments }

/-- The snapshot of a well of the global grid. -/
def reconstruct (report : Report) (reader : RealsReader) (catalog : Option GridCatalog)
    (options : LoadOptions) (well : Nat) : Except TopologyError Snapshot × RealsReader :=
  match report.globalGrid.bind fun g => WellHeader.decode report.header g well with
  | .error e => (.error (.record e), reader)
  | .ok w =>
    match topologyOf reader options well with
    | (.error e, reader) => (.error e, reader)
    | (.ok topology, reader) =>
      let s := Snapshot.ofHeader report.header w
      let s := { s with
        segments := topology.map (·.1)
        branches := (topology.map (·.2)).getD {} }
      (addGrids report.header catalog report.grids s, reader)

/-- A reader over the global grid of a report. -/
def realsReader (report : Report) (globalGrid : GridRecords) : RealsReader :=
  { header := report.header, records := globalGrid }

end Report

end Wellbore
