import Wellbore.Grid.Catalog
import Wellbore.Proofs.Grid.Ranks
import Wellbore.Proofs.Restart.Rows

/-!
# What the grids of a catalog are made of

A catalog is filled from descriptions, one grid after the other or both. Every grid that it
holds was offered to it: by a description or on its own, with extents and with flags or
without. A grid whose name is taken is refused as a whole, so nothing can change what a
name stands for, and the cells of a grid are numbered as its own offer says (`MadeOf`).
-/

namespace Wellbore

/-- A grid as it is offered to a catalog. -/
structure GridOffer where
  name : GridName
  dims : GridDims
  /-- A flag word for each cell. Without them every cell is active. -/
  flags : Option (List Int32)
deriving DecidableEq

namespace GridOffer

/-- The grid has the name, the extents and the active cells of the offer. The label stands
in error messages only. -/
def Makes (o : GridOffer) (g : Grid) : Prop :=
  g.name = o.name ∧ ∃ label, ActiveCells.ofFlags? label o.dims o.flags = .ok g.active

/-- A cell number that has the bit of an active matrix cell. -/
def Marks (o : GridOffer) (n : Nat) : Prop :=
  match o.flags with
  | some flags => ∃ f, flags[n]? = some f ∧ f &&& matrixBit ≠ 0
  | none => True

end GridOffer

/-! ## The cells of a grid -/

namespace GridOffer

variable {o : GridOffer} {g : Grid} {n number : Nat}

/-- The cells of the grid that have an active number are those that the offer marks, and an
active number leads back to the cell that has it. -/
theorem Makes.numbering (h : o.Makes g) (hn : n < g.dims.size) :
    ((g.active.matrix.number? n).isSome = true ↔ o.Marks n) ∧
      ∀ number, g.active.matrix.number? n = some number →
        number < g.active.matrix.cells.size ∧ g.active.matrix.cell? number = some n := by
  obtain ⟨-, label, hactive⟩ := h
  have hranks := ActiveCells.ranks_matrix hactive
  have hmarks : (ActiveCells.matrixMarks o.dims.size o.flags)[n]? = some true ↔ o.Marks n := by
    rw [Marks]
    cases hflags : o.flags with
    | some flags => simp [ActiveCells.matrixMarks, ← ActiveCells.map_matrixBit]
    | none =>
        rw [hflags] at hactive
        have hfull : g.active = .full o.dims := (Except.ok.inj hactive).symm
        have hsize : n < o.dims.size := by
          rw [Grid.dims, hfull] at hn
          exact hn
        simp [ActiveCells.matrixMarks, hsize]
  refine ⟨?_, fun number hnumber => ?_⟩
  · rw [Option.isSome_iff_exists, ← hmarks, ← hranks.members n]
    exact exists_congr fun number => hranks.inverse n number
  · have hcell := (hranks.inverse n number).mp hnumber
    exact ⟨CellNumbering.cell?_lt hcell, hcell⟩

end GridOffer

/-! ## The grids of a catalog -/

/-- What a description offers. -/
def GridDescription.offer (d : GridDescription) : GridOffer :=
  ⟨d.name, .ofExtents d.nx d.ny d.nz, d.flags⟩

namespace GridCatalog

variable {c c' : GridCatalog} {g : Grid} {o : GridOffer} {offers : List GridOffer}
  {name : GridName} {d : GridDescription} {ds : List GridDescription}

/-- Every grid is made of something that was offered. -/
def MadeOf (c : GridCatalog) (offers : List GridOffer) : Prop :=
  ∀ g ∈ c.grids, ∃ o ∈ offers, o.Makes g

theorem madeOf_empty : MadeOf {} [] := fun _ hg => absurd hg List.not_mem_nil

theorem MadeOf.append (h : c.MadeOf offers) (more : List GridOffer) :
    c.MadeOf (offers ++ more) := by
  intro g hg
  obtain ⟨o, ho, hmakes⟩ := h g hg
  exact ⟨o, List.mem_append_left _ ho, hmakes⟩

theorem MadeOf.insert (h : c.MadeOf offers) (ho : o.Makes g) :
    (c.insert g).2.MadeOf (offers ++ [o]) := by
  rw [GridCatalog.insert]
  split
  · exact h.append [o]
  · intro g' hg'
    rcases List.mem_append.mp hg' with hg' | hg'
    · exact h.append [o] g' hg'
    · rw [List.mem_singleton.mp hg']
      exact ⟨o, by simp, ho⟩

theorem makes_gridOf (h : gridOf d = .ok g) : d.offer.Makes g := by
  rw [gridOf] at h
  split at h
  · cases h
  · obtain ⟨active, hactive, hg⟩ := bind_eq_ok.mp h
    cases hg
    exact ⟨rfl, d.name, hactive⟩

theorem insertAll_cons_eq_ok (h : c.insertAll (d :: ds) = .ok c') :
    ∃ g, gridOf d = .ok g ∧ (c.insert g).2.insertAll ds = .ok c' := by
  rw [insertAll] at h
  obtain ⟨g, hg, hrest⟩ := bind_eq_ok.mp h
  refine ⟨g, hg, ?_⟩
  split at hrest
  · next hinsert => rw [hinsert]; exact hrest
  · cases hrest

theorem MadeOf.insertAll (h : c.MadeOf offers) (hall : c.insertAll ds = .ok c') :
    c'.MadeOf (offers ++ ds.map GridDescription.offer) := by
  induction ds generalizing c offers with
  | nil =>
      cases hall
      exact h.append []
  | cons d ds ih =>
      obtain ⟨g, hg, hrest⟩ := insertAll_cons_eq_ok hall
      have hmade := ih (h.insert (makes_gridOf hg)) hrest
      rw [List.append_assoc] at hmade
      exact hmade

/-! ## Looking up -/

theorem mem_of_find? (h : c.find? name = some g) : g ∈ c.grids ∧ g.name = name := by
  rw [find?] at h
  have hname := List.find?_some h
  exact ⟨List.mem_of_find?_eq_some h, of_decide_eq_true hname⟩

theorem indexOf_eq_ok {cell : Cell} {n : Nat} : c.indexOf name cell = .ok n ↔
    ∃ g, c.find? name = some g ∧ g.dims.indexOf? cell = some n := by
  rw [indexOf]
  cases c.find? name with
  | none => simp
  | some g => cases hn : g.dims.indexOf? cell <;> simp [hn]

end GridCatalog

end Wellbore
