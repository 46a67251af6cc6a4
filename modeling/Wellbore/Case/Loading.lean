import Wellbore.Case.Config
import Wellbore.Reconstruction

/-!
# Loading reports

Every well of a report is reconstructed on its own before anything is archived.
In strict mode one bad well spoils the whole report; otherwise bad wells are
skipped and the others archived, in the order of the report.
-/

namespace Wellbore

/-- What became of the wells of one report. -/
structure ReportOutcome where
  reportStep : Int32
  archived : List String := []
  /-- The wells that were skipped, and why. -/
  skipped : List (String × TopologyError) := []
deriving DecidableEq, Inhabited

/-- A well by name, and its snapshot or what is wrong with it. -/
abbrev WellResult := String × Except TopologyError Snapshot

namespace Report

/-- Reconstructs wells numbered from `well` on, one reader serving them all. -/
def reconstructFrom (report : Report) (catalog : Option GridCatalog)
    (options : LoadOptions) : (well : Nat) → List String → RealsReader → List WellResult
  | _, [], _ => []
  | well, name :: rest, reader =>
    let (result, reader) := report.reconstruct reader catalog options well
    (name, result) :: reconstructFrom report catalog options (well + 1) rest reader

/-- The results for all wells of the global grid. -/
def reconstructAll (report : Report) (globalGrid : GridRecords)
    (catalog : Option GridCatalog) (options : LoadOptions) : List WellResult :=
  report.reconstructFrom catalog options 0 globalGrid.wellNames (report.realsReader globalGrid)

end Report

def goodSnapshots (results : List WellResult) : List Snapshot :=
  results.filterMap fun (_, result) => result.toOption

/-- The wells among some results that are bad, and why. -/
def badWells (results : List WellResult) : List (String × TopologyError) :=
  results.filterMap fun (name, result) =>
    match result with
    | .ok _ => none
    | .error e => some (name, e)

namespace Archive

/-- Judges the results for the wells of a report and archives the good ones. -/
def loadResults (a : Archive) (step : Int32) (strict : Bool) (results : List WellResult) :
    Except CaseError ReportOutcome × Archive :=
  let bad := badWells results
  match strict, bad with
  | true, (name, e) :: _ => (.error (.topology name step e), a)
  | _, _ =>
    let good := goodSnapshots results
    match a.addAll good with
    | (.error e, a) => (.error (.ofArchive e), a)
    | (.ok (), a) => (.ok ⟨step, good.map Snapshot.name, bad⟩, a)

/-- Reconstructs and archives the wells of a report: what became of them, and the
archive after. -/
def loadReport (a : Archive) (report : Report) (catalog : Option GridCatalog)
    (options : LoadOptions) : Except CaseError ReportOutcome × Archive :=
  match report.globalGrid with
  | .error e => (.error (.restart e), a)
  | .ok globalGrid =>
    a.loadResults report.header.reportStep options.strict
      (report.reconstructAll globalGrid catalog options)

end Archive

structure Case where
  config : CaseConfig
  catalog : Option GridCatalog := none
  archive : Archive := default
  outcomes : List ReportOutcome := []
deriving Inhabited

def Report.load (view : FileView) (path : String) : Except CaseError Report :=
  match view path with
  | .missing => .error (.fileRead .report path)
  | .noText => .error (.restart .malformed)
  | .text content =>
    match Report.parse content with
    | .ok r => .ok r
    | .error e => .error (.restart e)

namespace Case

/-- Adds the reports at some paths to a case. -/
def addReports (view : FileView) : List String → Case → Except CaseError Case
  | [], case => .ok case
  | path :: rest, case => do
    let report ← Report.load view path
    match case.archive.loadReport report case.catalog case.config.options with
    | (.error e, _) => throw e
    | (.ok outcome, archive) =>
      addReports view rest { case with archive, outcomes := case.outcomes ++ [outcome] }

/-- Opens the case of a configuration. -/
def ofConfig (view : FileView) (config : CaseConfig) : Except CaseError Case := do
  let catalog ← config.grid.mapM (GridCatalog.load view)
  addReports view config.reports { config, catalog }

/-- Opens the case whose configuration stands at a path. -/
def load (view : FileView) (path : String) : Except CaseError Case := do
  ofConfig view (← CaseConfig.load view path)

end Case

end Wellbore
