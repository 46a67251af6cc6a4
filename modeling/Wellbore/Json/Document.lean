import Wellbore.Json.Basic
import Wellbore.Document
import Wellbore.Word

/-!
# JSON as a format for records

Kinds are strict: an integer is never read from a real, and only `null` is absent.
A real may be written as an integer.
-/

namespace Wellbore.Json

instance : Document Json Option where
  text?
    | .str s => some s
    | _ => none
  flag?
    | .bool b => some b
    | _ => none
  natural?
    | .int n => if 0 ≤ n then Word.unsigned64? n.toNat else none
    | _ => none
  integer?
    | .int n => Word.signed32? n
    | _ => none
  real?
    | .int n => some (if n < 0 then -Float.ofNat n.natAbs else Float.ofNat n.natAbs)
    | .real x => some x
    | _ => none
  present?
    | .null => some none
    | v => some (some v)
  list?
    | .arr items => some items
    | _ => none
  fields?
    | .obj members => some (.named members)
    | .arr items => some (.ordered items)
    | _ => none

end Wellbore.Json
