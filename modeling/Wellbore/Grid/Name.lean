/-!
# Grid names

A cell index only means something together with its grid. A case has one global
grid, whose name is reserved, and any number of local refinements.
-/

namespace Wellbore

/-- The grid a cell index is expressed in. -/
inductive GridName where
  | global
  | refinement (name : String)
deriving DecidableEq, Repr, Inhabited

namespace GridName

/-- The reserved name of the global grid. -/
def globalText : String := "Global"

/-- The grid called `name`. -/
def ofText (name : String) : GridName :=
  if name = globalText then .global else .refinement name

/-- The name as written in a report. -/
def text : GridName → String
  | .global => globalText
  | .refinement name => name

def isGlobal : GridName → Bool
  | .global => true
  | .refinement _ => false

/-- The global grid comes first, then the refinements in the order of their names. -/
def order : GridName → GridName → Ordering
  | .global, .global => .eq
  | .global, .refinement _ => .lt
  | .refinement _, .global => .gt
  | .refinement a, .refinement b => compare a b

instance : Ord GridName := ⟨order⟩

instance : Std.OrientedOrd GridName where
  eq_swap {a b} :=
    match a, b with
    | .global, .global | .global, .refinement _ | .refinement _, .global => rfl
    | .refinement a, .refinement b =>
      show compare a b = (compare b a).swap from Std.OrientedCmp.eq_swap

instance : Std.TransOrd GridName where
  isLE_trans {a b c} h₁ h₂ :=
    match a, b, c, h₁, h₂ with
    | .global, _, .global, _, _ | .global, _, .refinement _, _, _ => rfl
    | .refinement a, .refinement b, .refinement c, h₁, h₂ =>
      show (compare a c).isLE from
        Std.TransCmp.isLE_trans (show (compare a b).isLE from h₁)
          (show (compare b c).isLE from h₂)
    | .refinement _, .refinement _, .global, _, h₂ => h₂
    | .refinement _, .global, _, h₁, _ => nomatch h₁

instance : Std.LawfulEqOrd GridName where
  compare_self {a} :=
    match a with
    | .global => rfl
    | .refinement a => show compare a a = .eq from Std.ReflCmp.compare_self
  eq_of_compare {a b} h :=
    match a, b, h with
    | .global, .global, _ => rfl
    | .refinement a, .refinement b, h =>
      congrArg refinement (Std.LawfulEqCmp.eq_of_compare (show compare a b = .eq from h))

end GridName

end Wellbore
