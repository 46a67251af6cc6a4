/-!
# JSON values

Members of an object keep their written order and may repeat a name: which
repetitions are errors is a matter for whoever reads the object. A literal can be
well formed and still denote nothing (a number beyond the reals, a string with
half a surrogate pair); it is kept as `unreadable`, so that it can be skipped but
never read.
-/

namespace Wellbore

/-- A JSON value; integers within 64 bits are kept apart from reals. -/
inductive Json where
  | null
  | bool (value : Bool)
  | int (value : Int)
  | real (value : Float)
  | str (value : String)
  | arr (items : List Json)
  | obj (members : List (String × Json))
  | unreadable
deriving Inhabited

namespace Json

def nat (n : Nat) : Json := .int n

/-- A 32-bit record integer as a value. -/
def word (n : Int32) : Json := .int n.toInt

/-- `null` for an absent value. -/
def ofOption {α : Type} (write : α → Json) : Option α → Json
  | none => .null
  | some a => write a

def ofList {α : Type} (write : α → Json) (as : List α) : Json :=
  .arr (as.map write)

/-- The value of the first member called `name`. -/
def member? (name : String) : Json → Option Json
  | .obj members => members.lookup name
  | _ => none

end Json

end Wellbore
