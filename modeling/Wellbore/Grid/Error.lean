import Wellbore.Grid.Name

/-!
# What can be wrong with a grid or a cell
-/

namespace Wellbore

/-- Why a grid, or a cell of it, is refused. -/
inductive GridError where
  | shortHeader (len need : Nat)
  | badDimensions (nx ny nz : Int32)
  | actnumSize (grid : GridName) (len expected : Nat)
  | cellOutOfRange (grid : GridName) (i j k : Nat)
  | unknownGrid (grid : GridName)
  | duplicateGrid (grid : GridName)
deriving DecidableEq, Repr

def GridError.message : GridError → String
  | .shortHeader len need =>
    s!"Grid header has {len} fields, need at least {need}"
  | .badDimensions nx ny nz =>
    s!"Grid dimensions must be positive (nx={nx.toInt}, ny={ny.toInt}, nz={nz.toInt})"
  | .actnumSize grid len expected =>
    s!"ACTNUM has {len} values but grid {grid.text} has {expected} cells"
  | .cellOutOfRange grid i j k => s!"Cell ({i}, {j}, {k}) outside grid {grid.text}"
  | .unknownGrid grid => s!"Grid {grid.text} is not known"
  | .duplicateGrid grid => s!"Grid {grid.text} registered twice"

end Wellbore
