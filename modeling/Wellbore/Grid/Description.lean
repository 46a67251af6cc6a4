import Wellbore.Grid.Geometry
import Wellbore.Json.Document

/-!
# Written grid descriptions

What a description file says of one grid: its name and extents, and if wanted the
flags of its cells, its origin and its cell size.
-/

namespace Wellbore

/-- One grid as a description file writes it. -/
structure GridDescription where
  name : GridName
  nx : Nat
  ny : Nat
  nz : Nat
  flags : Option (List Int32) := none
  origin : Option Vec3 := none
  cellSize : Option Vec3 := none
deriving DecidableEq, Inhabited

variable {ν : Type} {m : Type → Type} [ReadMonad m] [Document ν m]

/-- A grid is written by its name. -/
def GridName.read? (v : ν) : m GridName := GridName.ofText <$> Document.text? v

def Vec3.read? (v : ν) : m Vec3 := do
  match ← Document.listOf? Document.real? v with
  | [x, y, z] => return ⟨x, y, z⟩
  | _ => ReadMonad.refuse

def Vec3.toJson (v : Vec3) : Json := .arr [.real v.x, .real v.y, .real v.z]

namespace GridDescription

def fieldNames : List String := ["name", "nx", "ny", "nz", "actnum", "origin", "cell_size"]

def read? (v : ν) : m GridDescription := do
  match ← Document.alignedTo fieldNames v with
  | [name, nx, ny, nz, flags, origin, cellSize] =>
    let name ← Document.required GridName.read? name
    let nx ← Document.required Document.natural? nx
    let ny ← Document.required Document.natural? ny
    let nz ← Document.required Document.natural? nz
    let flags ← Document.optional (Document.listOf? Document.integer?) flags
    let origin ← Document.optional Vec3.read? origin
    let cellSize ← Document.optional Vec3.read? cellSize
    return ⟨name, nx, ny, nz, flags, origin, cellSize⟩
  | _ => ReadMonad.refuse

/-- Writes a description; what is absent is left out. -/
def toJson (d : GridDescription) : Json :=
  let required := [("name", Json.str d.name.text), ("nx", .nat d.nx), ("ny", .nat d.ny),
    ("nz", .nat d.nz)]
  let flags := d.flags.toList.map fun flags => ("actnum", Json.ofList Json.word flags)
  let origin := d.origin.toList.map fun v => ("origin", v.toJson)
  let cellSize := d.cellSize.toList.map fun v => ("cell_size", v.toJson)
  .obj (required ++ flags ++ origin ++ cellSize)

end GridDescription

end Wellbore
