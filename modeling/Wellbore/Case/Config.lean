import Wellbore.Case.Files
import Wellbore.Case.Error
import Wellbore.LoadOptions
import Wellbore.Json.Reader
import Wellbore.Yaml.Document
import Wellbore.Grid.Catalog

/-!
# Case configurations

A configuration names a case, lists its reports, and may name a grid description.
Paths in it are seen from the directory of the file it stands in. The extension
of a file tells its format.
-/

namespace Wellbore

/-- Which files a case consists of and how to load them. -/
structure CaseConfig where
  name : String
  reports : List String
  grid : Option String := none
  options : LoadOptions := {}
deriving DecidableEq, Repr, Inhabited

namespace CaseConfig

def fieldNames : List String := ["name", "reports", "grid", "options"]

def read? {ν : Type} {m : Type → Type} [ReadMonad m] [Document ν m] (v : ν) :
    m CaseConfig := do
  match ← Document.alignedTo fieldNames v with
  | [name, reports, grid, options] =>
    let name ← Document.required Document.text? name
    let reports ← Document.required (Document.listOf? Document.text?) reports
    let grid ← Document.optional Document.text? grid
    let options ← Document.withDefault LoadOptions.read? {} options
    return ⟨name, reports, grid, options⟩
  | _ => ReadMonad.refuse

/-- Writes a configuration; a grid that is not named is left out. -/
def toJson (c : CaseConfig) : Json :=
  .obj ([("name", .str c.name), ("reports", Json.ofList .str c.reports)]
    ++ (c.grid.toList.map fun path => ("grid", Json.str path))
    ++ [("options", c.options.toJson)])

/-- Reads a configuration from its text in the plainer of the two formats. -/
def parse (text : String) : Except CaseError CaseConfig :=
  match Yaml.read? read? text with
  | some c => .ok c
  | none => .error (.config .case .yaml)

/-- The first path that is the same as an earlier one. -/
def repeated? (seen : List String) : List String → Option String
  | [] => none
  | path :: rest =>
    if seen.any (Path.same path) then some path else repeated? (path :: seen) rest

/-- What is wrong with a configuration, if anything. -/
def fault? (c : CaseConfig) : Option ConfigFault :=
  if Text.allBlank c.name then some .emptyName
  else if c.reports.isEmpty then some (.noReports c.name)
  else (repeated? [] c.reports).map .listedTwice

/-- Refuses a configuration with a fault. -/
def validate (c : CaseConfig) : Except CaseError Unit :=
  match c.fault? with
  | some fault => .error (.validation fault)
  | none => .ok ()

/-- Takes the relative paths of a configuration to be seen from `dir`. -/
def rebase (c : CaseConfig) (dir : String) : CaseConfig :=
  { c with
    reports := c.reports.map (Path.join dir)
    grid := c.grid.map (Path.join dir) }

end CaseConfig

/-- The format that the extension of a path stands for. -/
def FileFormat.ofPath (path : String) : FileFormat :=
  if Path.extension? path = some "json" then .json else .yaml

/-- The text of a file of a case. -/
def readText (view : FileView) (file : CaseFile) (path : String) : Except CaseError String :=
  match view path with
  | .text content => .ok content
  | _ => .error (.fileRead file path)

/-- Reads what a file says in the format of its path; the two readers read the same
record in either format. -/
def parseFile {α : Type} (file : CaseFile) (path : String) (ofJson : Json → Option α)
    (ofYaml : Yaml.Node → Yaml.Reading α) (text : String) : Except CaseError α :=
  let format := FileFormat.ofPath path
  let value := match format with
    | .json => (Json.parse? text).bind ofJson
    | .yaml => Yaml.read? ofYaml text
  match value with
  | some a => .ok a
  | none => .error (.config file format)

/-- Loads the configuration at a path: reads it, checks it, and takes its paths to be
seen from its directory. -/
def CaseConfig.load (view : FileView) (path : String) : Except CaseError CaseConfig := do
  let text ← readText view .case path
  let config ← parseFile .case path CaseConfig.read? CaseConfig.read? text
  config.validate
  match Path.parent? path with
  | some dir => return config.rebase dir
  | none => return config

/-- Loads the grid descriptions at a path. -/
def GridCatalog.load (view : FileView) (path : String) : Except CaseError GridCatalog := do
  let text ← readText view .grid path
  let descriptions ← parseFile .grid path (Document.listOf? GridDescription.read?)
    (Document.listOf? GridDescription.read?) text
  match GridCatalog.ofDescriptions descriptions with
  | .ok catalog => return catalog
  | .error e => throw (.grid e)

end Wellbore
