import Mathlib.Data.List.Nodup
import Wellbore.Proofs.Grid.Catalog

/-!
# A name stands for the grid that had it first

A registration either finds its name free and appends its grid, or finds it taken and leaves the
catalog as it was (`register_cases`). So names never repeat, and over any sequence of
registrations a name leads to the first grid that was offered under it: what is looked up after a
registration is what would be looked up if the grid had been appended in any case, since a grid
whose name is taken stands behind the one that has it.
-/

namespace Wellbore

/-- A grid to be registered, with its cells given or with all of them active. -/
inductive Registration where
  | grid (g : Grid)
  | full (name : GridName) (dims : GridDims)
deriving DecidableEq

/-- The grid that a registration offers. -/
def Registration.offered : Registration → Grid
  | .grid g => g
  | .full name dims => ⟨name, .full dims, none⟩

namespace GridCatalog

variable {c : GridCatalog} {g : Grid} {name : GridName} {r : Registration}
  {rs : List Registration} {offers : List GridOffer} {ds : List GridDescription}

def names (c : GridCatalog) : List GridName := c.grids.map Grid.name

/-- What a registration is answered, and the catalog after it. -/
def register (c : GridCatalog) : Registration → Except GridError Unit × GridCatalog
  | .grid g => c.insert g
  | .full name dims => c.insertFull name dims

/-- The catalog after some registrations, of which some may have been refused. -/
def registerAll (c : GridCatalog) (rs : List Registration) : GridCatalog :=
  rs.foldl (fun c r => (c.register r).2) c

/-- The grids of the registrations that are accepted, in order. -/
def accepted (c : GridCatalog) : List Registration → List Grid
  | [] => []
  | r :: rest =>
    match c.register r with
    | (.ok (), c) => r.offered :: c.accepted rest
    | (.error _, c) => c.accepted rest

/-- What the registrations make of the catalog. -/
structure Registers (c : GridCatalog) (rs : List Registration) : Prop where
  distinct : (c.registerAll rs).names.Nodup
  appended : (c.registerAll rs).grids = c.grids ++ c.accepted rs
  firstAccepted : ∀ name, (c.registerAll rs).find? name =
    (c.grids ++ c.accepted rs).find? fun g => g.name = name
  firstOffered : ∀ name, (c.registerAll rs).find? name =
    (c.grids ++ rs.map Registration.offered).find? fun g => g.name = name
  dimsTable : (c.registerAll rs).dimsTable = c.dimsTable ++ (c.accepted rs).map Grid.dims
  next : ∀ r, (r.offered.name ∉ (c.registerAll rs).names ∧ (c.registerAll rs).register r =
        (.ok (), ⟨(c.registerAll rs).grids ++ [r.offered]⟩)) ∨
    (r.offered.name ∈ (c.registerAll rs).names ∧ (c.registerAll rs).register r =
        (.error (.duplicateGrid r.offered.name), c.registerAll rs))

/-! ## One registration -/

theorem isSome_find? : (c.find? name).isSome = true ↔ name ∈ c.names := by
  simp [find?, names, List.find?_isSome]

theorem insert_of_free (h : g.name ∉ c.names) : c.insert g = (.ok (), ⟨c.grids ++ [g]⟩) := by
  rw [insert, if_neg (mt isSome_find?.mp h)]

theorem insert_of_taken (h : g.name ∈ c.names) :
    c.insert g = (.error (.duplicateGrid g.name), c) := by
  rw [insert, if_pos (isSome_find?.mpr h)]

theorem register_eq_insert (c : GridCatalog) (r : Registration) :
    c.register r = c.insert r.offered := by
  cases r <;> rfl

theorem register_cases (c : GridCatalog) (r : Registration) :
    (r.offered.name ∉ c.names ∧ c.register r = (.ok (), ⟨c.grids ++ [r.offered]⟩)) ∨
      (r.offered.name ∈ c.names ∧
        c.register r = (.error (.duplicateGrid r.offered.name), c)) := by
  rw [register_eq_insert]
  by_cases h : r.offered.name ∈ c.names
  · exact .inr ⟨h, insert_of_taken h⟩
  · exact .inl ⟨h, insert_of_free h⟩

theorem nodup_names_register (h : c.names.Nodup) (r : Registration) :
    (c.register r).2.names.Nodup := by
  rcases register_cases c r with ⟨hfree, hr⟩ | ⟨-, hr⟩
  · rw [hr, names, List.map_append, List.map_singleton, ← List.concat_eq_append]
    exact List.Nodup.concat hfree h
  · rwa [hr]

/-- A look-up does not see whether a grid behind one of its name was appended. -/
theorem find?_register (c : GridCatalog) (r : Registration) (name : GridName) :
    (c.register r).2.find? name = (c.grids ++ [r.offered]).find? fun g => g.name = name := by
  rcases register_cases c r with ⟨-, hr⟩ | ⟨htaken, hr⟩
  · rw [hr, find?]
  · rw [hr, List.find?_append, ← find?]
    by_cases hname : r.offered.name = name
    · rw [hname, ← isSome_find?] at htaken
      rw [Option.or_of_isSome htaken]
    · simp [hname]

/-! ## Any number of them -/

theorem registerAll_cons (c : GridCatalog) (r : Registration) (rs : List Registration) :
    c.registerAll (r :: rs) = (c.register r).2.registerAll rs := rfl

theorem nodup_names_registerAll (h : c.names.Nodup) (rs : List Registration) :
    (c.registerAll rs).names.Nodup := by
  induction rs generalizing c with
  | nil => exact h
  | cons r rs ih => exact ih (nodup_names_register h r)

theorem grids_registerAll (c : GridCatalog) (rs : List Registration) :
    (c.registerAll rs).grids = c.grids ++ c.accepted rs := by
  induction rs generalizing c with
  | nil => exact (List.append_nil _).symm
  | cons r rs ih =>
      rw [registerAll_cons, ih, accepted]
      rcases register_cases c r with ⟨-, hr⟩ | ⟨-, hr⟩
      · rw [hr, List.append_assoc, List.singleton_append]
      · rw [hr]

theorem exists_of_mem_accepted (h : g ∈ c.accepted rs) : ∃ r ∈ rs, r.offered = g := by
  induction rs generalizing c with
  | nil => exact absurd h List.not_mem_nil
  | cons r rs ih =>
      rw [accepted] at h
      split at h
      · rcases List.mem_cons.mp h with rfl | h
        · exact ⟨r, List.mem_cons_self, rfl⟩
        · exact (ih h).imp fun _ => And.imp_left (List.mem_cons_of_mem _)
      · exact (ih h).imp fun _ => And.imp_left (List.mem_cons_of_mem _)

/-- The grids of a catalog that was read from descriptions, and in which grids were registered
since. -/
theorem madeOf_registerAll (h : ofDescriptions ds = .ok c)
    (hoffers : ∀ r ∈ rs, ∃ o ∈ offers, o.Makes r.offered) :
    (c.registerAll rs).MadeOf (ds.map GridDescription.offer ++ offers) := by
  intro g hg
  rw [grids_registerAll, List.mem_append] at hg
  rcases hg with hg | hg
  · exact (madeOf_empty.insertAll h).append offers g hg
  · obtain ⟨r, hr, rfl⟩ := exists_of_mem_accepted hg
    obtain ⟨o, ho, hmakes⟩ := hoffers r hr
    exact ⟨o, List.mem_append_right _ ho, hmakes⟩

theorem find?_registerAll (c : GridCatalog) (rs : List Registration) (name : GridName) :
    (c.registerAll rs).find? name =
      (c.grids ++ rs.map Registration.offered).find? fun g => g.name = name := by
  induction rs generalizing c with
  | nil => rw [List.map_nil, List.append_nil]; rfl
  | cons r rs ih =>
      rw [registerAll_cons, ih, List.find?_append, ← find?, find?_register, ← List.find?_append,
        List.map_cons, List.append_assoc, List.singleton_append]

theorem registers (h : c.names.Nodup) (rs : List Registration) : c.Registers rs where
  distinct := nodup_names_registerAll h rs
  appended := grids_registerAll c rs
  firstAccepted name := by rw [find?, grids_registerAll]
  firstOffered := find?_registerAll c rs
  dimsTable := by rw [dimsTable, grids_registerAll, List.map_append, ← dimsTable]
  next := register_cases _

end GridCatalog

end Wellbore
