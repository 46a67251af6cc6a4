import Wellbore.Command.Basic

/-!
# The command line

Reads the files that a command is about, runs it on them, and prints what it
says.
-/

namespace Wellbore

/-- What stands at a path of the file system. -/
def entryAt (path : String) : IO FileEntry := do
  try
    return .text (← IO.FS.readFile path)
  catch
    | .noFileOrDirectory .. => return .missing
    | _ => return .noText

def entriesAt (paths : List String) : IO (List (String × FileEntry)) :=
  paths.mapM fun path => return (path, ← entryAt path)

/-- A view of files that have been read. -/
def viewOf (entries : List (String × FileEntry)) : FileView := fun path =>
  (entries.lookup path).getD .missing

/-- Everything that the case at a path consists of. -/
def readCase (path : String) : IO FileView := do
  let config ← entriesAt [path]
  match CaseConfig.load (viewOf config) path with
  | .error _ => return viewOf config
  | .ok c => return viewOf (config ++ (← entriesAt (c.reports ++ c.grid.toList)))

/-- How to call the program. -/
def usage : String := "\n".intercalate [
  "Usage: wellbore validate CASE",
  "       wellbore wells CASE",
  "       wellbore topology CASE WELL [--report STEP] [--json]",
  "       wellbore state CASE WELL (--report STEP | --time TIME) [--json]"]

end Wellbore

open Wellbore in
/-- Runs the command that the arguments name. -/
def main (args : List String) : IO UInt32 := do
  let view ← match Command.ofArgs? args with
    | some command => readCase command.path
    | none => pure fun _ => FileEntry.missing
  let run := Command.runArgs view args
  IO.print run.output
  match run.ending with
  | .done => pure ()
  | .failed cause => IO.eprintln s!"Error: {cause.message}"
  | .misused => IO.eprintln usage
  return run.ending.code.toUInt32
