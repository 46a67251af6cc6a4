import Wellbore.Json.Document

/-!
# How much to reconstruct
-/

namespace Wellbore

/-- Switches for loading reports; all of them are on unless written otherwise. -/
structure LoadOptions where
  /-- Without it every well is taken for a normal well. -/
  segments : Bool := true
  /-- Without it segmented wells are not decomposed into branches. -/
  branches : Bool := true
  /-- One bad well spoils its report, where otherwise it is skipped. -/
  strict : Bool := true
deriving DecidableEq, Repr, Inhabited

namespace LoadOptions

def fieldNames : List String := ["load_segments", "load_branches", "strict"]

def read? {ν : Type} {m : Type → Type} [ReadMonad m] [Document ν m] (v : ν) :
    m LoadOptions := do
  match ← Document.alignedTo fieldNames v with
  | [segments, branches, strict] =>
    let segments ← Document.withDefault Document.flag? true segments
    let branches ← Document.withDefault Document.flag? true branches
    let strict ← Document.withDefault Document.flag? true strict
    return ⟨segments, branches, strict⟩
  | _ => ReadMonad.refuse

def toJson (o : LoadOptions) : Json :=
  .obj [("load_segments", .bool o.segments), ("load_branches", .bool o.branches),
    ("strict", .bool o.strict)]

end LoadOptions

end Wellbore
