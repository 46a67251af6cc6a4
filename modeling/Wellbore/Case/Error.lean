import Wellbore.Archive.Basic
import Wellbore.Time.Text

/-!
# What can go wrong with a case

The errors that a user sees. What goes wrong in a lower part is wrapped with the
words that say where it happened.
-/

namespace Wellbore

/-- The files that a case consists of. -/
inductive CaseFile where
  | case
  | grid
  | report
deriving DecidableEq, Repr

/-- The name of a kind of file. -/
def CaseFile.text : CaseFile → String
  | .case => "case"
  | .grid => "grid"
  | .report => "report"

/-- The formats in which configurations and grids are written. -/
inductive FileFormat where
  | json
  | yaml
deriving DecidableEq, Repr

def FileFormat.text : FileFormat → String
  | .json => "JSON"
  | .yaml => "YAML"

/-- Why a configuration that can be read is not acceptable. -/
inductive ConfigFault where
  | emptyName
  | noReports (name : String)
  | listedTwice (report : String)
  | reportNotFound (path : String)
  | gridNotFound (path : String)
deriving DecidableEq, Repr

def ConfigFault.message : ConfigFault → String
  | .emptyName => "Case name must not be empty"
  | .noReports name => s!"Case '{name}' must list at least one restart report"
  | .listedTwice report => s!"Report {report} listed twice"
  | .reportNotFound path => s!"Report file not found: {path}"
  | .gridNotFound path => s!"Grid file not found: {path}"

/-- Why a case cannot be loaded or a question about it has no answer. -/
inductive CaseError where
  | config (file : CaseFile) (format : FileFormat)
  | fileRead (file : CaseFile) (path : String)
  | validation (fault : ConfigFault)
  | restart (source : RecordError)
  | grid (source : GridError)
  | topology (well : String) (reportStep : Int32) (source : TopologyError)
  | history (source : ArchiveError)
  | wellNotFound (name : String)
  | noSnapshot (well : String) (key : TimeKey)
deriving DecidableEq

def TimeKey.text : TimeKey → String
  | .report step => s!"report {step.toInt}"
  | .time t => t.offsetText

namespace CaseError

/-- An unknown well is a case of its own. -/
def ofArchive : ArchiveError → CaseError
  | .unknownWell name => .wellNotFound name
  | e => .history e

def message : CaseError → String
  | .config file format =>
    s!"Case configuration error: Failed to parse {file.text} {format.text}"
  | .fileRead file path => s!"Failed to read {file.text} file: {path}"
  | .validation fault => "Case validation failed: " ++ fault.message
  | .restart source => "Restart data error: " ++ source.message
  | .grid source => "Grid error: " ++ source.message
  | .topology well reportStep source =>
    s!"Well {well} at report {reportStep.toInt}: " ++ source.message
  | .history source => "History error: " ++ source.message
  | .wellNotFound name => s!"Well not found: {name}"
  | .noSnapshot well key => s!"No snapshot of well {well} at or before {key.text}"

end CaseError

end Wellbore
