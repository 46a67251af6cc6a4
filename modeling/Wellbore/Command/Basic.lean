import Wellbore.Case.Display
import Wellbore.Command.Arguments
import Wellbore.Time.Reader
import Wellbore.Word

/-!
# The commands

Four commands look at a case: they check it, list its wells, and show the
topology or the state of a well. A command is a function of what stands in the
files; running it gives the text to print and how it ended.
-/

namespace Wellbore

/-- What the command line can be asked to do with the case at a path. -/
inductive Command where
  | validate (path : String)
  | wells (path : String)
  /-- The topology of a well at a report, or at the last one. -/
  | topology (path well : String) (report : Option Int32) (json : Bool)
  | state (path well : String) (key : TimeKey) (json : Bool)
deriving DecidableEq, Repr

/-- How a run ended. -/
inductive Ending where
  | done
  | failed (cause : CaseError)
  /-- The arguments name no command. -/
  | misused
deriving DecidableEq

def Ending.code : Ending → Nat
  | .done => 0
  | .failed _ => 1
  | .misused => 2

/-- What a run printed and how it ended. -/
structure Run where
  output : String := ""
  ending : Ending := .done
deriving DecidableEq

namespace Run

def textOf (lines : List String) : String := String.join (lines.map fun line => line ++ "\n")

/-- A run that prints some lines, or fails before it prints any. -/
def ofLines : Except CaseError (List String) → Run
  | .ok lines => { output := textOf lines }
  | .error e => { ending := .failed e }

end Run

namespace Command

/-- The number of a report step in decimal digits, with a sign or without. -/
def stepOf? (text : String) : Option Int32 := do
  let (negative, digits) := match text.toList with
    | '-' :: rest => (true, rest)
    | '+' :: rest => (false, rest)
    | cs => (false, cs)
  guard (!digits.isEmpty ∧ digits.all Char.isDigit)
  let size : Nat := digits.foldl (fun n c => n * 10 + (c.toNat - '0'.toNat)) 0
  Word.signed32? (if negative then -size else size)

/-- A path has at least one character. -/
def pathOf? (text : String) : Option String := if text = "" then none else some text

/-- The options of a command by name, and whether they take a value. -/
def optionsOf (options : List (String × Bool)) (name : String) : Option Bool :=
  options.lookup name

/-- The moment that a state is asked for: a report step or a time, not both. -/
def keyOf? (as : Arguments) : Option TimeKey := do
  match ← as.value? "report" stepOf?, ← as.value? "time" Instant.parseStrict? with
  | some step, none => some (.report step)
  | none, some t => some (.time t)
  | _, _ => none

/-- A command that takes nothing but a path. -/
def ofPath? (command : String → Command) (args : List String) : Option Command := do
  match ← Arguments.sort? (optionsOf []) args {} with
  | ⟨[path], _⟩ => (pathOf? path).map command
  | _ => none

/-- The command that asks for a topology. -/
def ofTopologyArgs? (args : List String) : Option Command := do
  let as ← Arguments.sort? (optionsOf [("report", true), ("json", false)]) args {}
  let report ← as.value? "report" stepOf?
  match as.positional with
  | [path, well] => return .topology (← pathOf? path) well report (as.has "json")
  | _ => none

/-- The command that asks for a state. -/
def ofStateArgs? (args : List String) : Option Command := do
  let as ← Arguments.sort? (optionsOf [("report", true), ("time", true), ("json", false)]) args {}
  let key ← keyOf? as
  match as.positional with
  | [path, well] => return .state (← pathOf? path) well key (as.has "json")
  | _ => none

def ofArgs? : List String → Option Command
  | "validate" :: args => ofPath? .validate args
  | "wells" :: args => ofPath? .wells args
  | "topology" :: args => ofTopologyArgs? args
  | "state" :: args => ofStateArgs? args
  | _ => none

def path : Command → String
  | .validate path | .wells path | .topology path _ _ _ | .state path _ _ _ => path

/-- The first file that a configuration lists and that is not there. -/
def missingFile? (view : FileView) (config : CaseConfig) : Option ConfigFault :=
  let isMissing (path : String) : Bool := view path = .missing
  ((config.reports.find? isMissing).map .reportNotFound).or
    ((config.grid.filter isMissing).map .gridNotFound)

/-- Reads a configuration and looks for the files that it lists. -/
def checkedConfig (view : FileView) (path : String) : Except CaseError CaseConfig := do
  let config ← CaseConfig.load view path
  match missingFile? view config with
  | some fault => throw (.validation fault)
  | none => return config

/-- Checks a case; the first line is printed whatever becomes of it. -/
def runValidate (view : FileView) (path : String) : Run :=
  let begin := s!"Validating case: {path}"
  match checkedConfig view path with
  | .error e => { output := Run.textOf [begin], ending := .failed e }
  | .ok config =>
    { output := Run.textOf
        [begin, s!"✓ Case '{config.name}' is valid ({config.reports.length} reports)"] }

/-- The wells of a case, and those that were skipped. -/
def wellLines (case : Case) : List String :=
  let listed := match case.archive.summaries with
    | [] => ["No wells found in case"]
    | summaries => s!"Wells in case '{case.config.name}':" :: summaries.map WellSummary.line
  listed ++ case.outcomes.flatMap ReportOutcome.lines

/-- The topology of a snapshot, in one of two forms. -/
def topologyLines (s : Snapshot) (json : Bool) : List String :=
  if json then [s.topology.toJson.pretty 0] else s.topology.lines s.isSegmented

/-- The state of a snapshot, in one of two forms. -/
def stateLines (s : Snapshot) (json : Bool) : List String :=
  if json then [s.state.toJson.pretty 0] else s.state.lines

def run (view : FileView) : Command → Run
  | .validate path => runValidate view path
  | .wells path => .ofLines do return wellLines (← Case.load view path)
  | .topology path well report json => .ofLines do
    let case ← Case.load view path
    let snapshot ← match report with
      | some step => case.archive.snapshot well (.report step)
      | none => case.archive.latest well
    return topologyLines snapshot json
  | .state path well key json => .ofLines do
    let case ← Case.load view path
    return stateLines (← case.archive.snapshot well key) json

/-- Runs the command that the arguments name. -/
def runArgs (view : FileView) (args : List String) : Run :=
  match ofArgs? args with
  | some command => run view command
  | none => { ending := .misused }

end Command

end Wellbore
