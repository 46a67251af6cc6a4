import Wellbore.Grid.Name
import Wellbore.Tolerance

/-!
# What can be wrong with a restart record
-/

namespace Wellbore

/-- The records of a restart report. -/
inductive Keyword where
  /-- One row of integers per well. -/
  | iwel
  /-- Rows of integers per segmented well, one for each segment. -/
  | iseg
  /-- Rows of reals per segmented well, one for each segment. -/
  | rseg
  /-- Rows of integers per well, one for each connection. -/
  | icon
  /-- Rows of reals per well, one for each connection. -/
  | scon
deriving DecidableEq, Repr

/-- The keyword as written in a report. -/
def Keyword.text : Keyword → String
  | .iwel => "IWEL"
  | .iseg => "ISEG"
  | .rseg => "RSEG"
  | .icon => "ICON"
  | .scon => "SCON"

/-- Why a report cannot be read or does not hold what is asked for. -/
inductive RecordError where
  | missingRecord (keyword : Keyword) (grid : GridName) (well : Nat)
  | recordTooShort (keyword : Keyword) (needed len : Nat)
  | wellOutOfRange (grid : GridName) (well wells : Nat)
  | unknownGrid (grid : GridName)
  | badValue (keyword : Keyword) (source : NonFinite)
  /-- The text is no report at all. -/
  | malformed
deriving DecidableEq

def RecordError.message : RecordError → String
  | .missingRecord keyword grid well =>
    s!"Missing {keyword.text} record for well {well} in grid {grid.text}"
  | .recordTooShort keyword needed len =>
    s!"{keyword.text} record too short: need index {needed}, have {len} values"
  | .wellOutOfRange grid well wells =>
    s!"Well {well} out of range (grid {grid.text} has {wells} wells)"
  | .unknownGrid grid => s!"Grid {grid.text} has no records in this report"
  | .badValue keyword source => s!"Bad value in {keyword.text}: {source.message}"
  | .malformed => "JSON error"

end Wellbore
