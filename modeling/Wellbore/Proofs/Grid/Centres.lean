import Wellbore.Grid.CentreTable
import Wellbore.Proofs.Archive.Bisection
import Wellbore.Proofs.Grid.Extents
import Wellbore.Proofs.Grid.Ranks

/-!
# The table of centres never shifts an entry

The table is filled in one pass over the active cells. A cell that the geometry does not know is
passed over, and whatever came after it would then stand one place too early. Nothing comes after
it: active cells are listed in increasing order, the geometry knows the cells below its size, and
so the cells that it does not know are the last ones. This holds of any geometry, also of one
that was made for another grid.
-/

namespace Wellbore

namespace CentreTable

open Bisection (Divides)

variable {t : CentreTable} {geometry : BoxGeometry} {active : ActiveCells} {o : Word.Overflow}
  {centre : Nat → Option Vec3} {cell number size : Nat} {offered : List Nat}

/-- The table answers for the active cells what a machine finds in the geometry for their cell
numbers. If it makes out no size of the geometry, there are no active cells. -/
structure Answers (t : CentreTable) (geometry : BoxGeometry) (o : Word.Overflow)
    (active : ActiveCells) : Prop where
  centre : ∀ number, (active.matrix.cell? number).elim (some none) (geometry.centreInWords? o) =
    some (t.centre? number)
  size : ∀ size, geometry.dims.sizeInWords? o = some size →
    t.size = active.matrix.cells.toList.countP fun cell => cell < size
  unsized : geometry.dims.sizeInWords? o = none → active.matrix.cells = #[]
  cells : t.cells.toList = active.matrix.cells.toList.take t.size
  columns : t.xs.size = t.size ∧ t.ys.size = t.size ∧ t.zs.size = t.size
  volumes : ∃ volumes, t.volumesInWords? o = some volumes ∧ volumes.size = t.size ∧
    ∀ number < t.size, ∃ cell volume, t.cells[number]? = some cell ∧
      geometry.volumeInWords? o cell = some (some volume) ∧ volumes[number]? = some volume

/-! ## Filling the table -/

/-- The columns hold the centres of the cells that were offered and that have one. -/
structure Holds (t : CentreTable) (geometry : BoxGeometry) (centre : Nat → Option Vec3)
    (offered : List Nat) : Prop where
  ofGeometry : t.geometry = geometry
  cells : t.cells.toList = offered.filter fun cell => (centre cell).isSome
  xs : t.xs.toList = (offered.filterMap centre).map Vec3.x
  ys : t.ys.toList = (offered.filterMap centre).map Vec3.y
  zs : t.zs.toList = (offered.filterMap centre).map Vec3.z

theorem Holds.push (h : t.Holds geometry centre offered) (cell : Nat) :
    (t.push cell (centre cell)).Holds geometry centre (offered ++ [cell]) := by
  cases hcentre : centre cell with
  | some c => constructor <;> simp [CentreTable.push, h.ofGeometry, h.cells, h.xs, h.ys, h.zs,
      hcentre]
  | none => constructor <;> simp [CentreTable.push, h.ofGeometry, h.cells, h.xs, h.ys, h.zs,
      hcentre]

theorem Holds.foldl_push (h : t.Holds geometry centre offered) (rest : List Nat) :
    (rest.foldl (fun t cell => t.push cell (centre cell)) t).Holds geometry centre
      (offered ++ rest) := by
  induction rest generalizing t offered with
  | nil => rwa [List.append_nil]
  | cons cell rest ih =>
      rw [List.append_cons]
      exact ih (h.push cell)

/-- The table is filled if the machine has an answer for every cell. -/
theorem exists_ofActiveInWords? (hcentre : ∀ cell, geometry.centreInWords? o cell =
    some (centre cell)) (active : ActiveCells) :
    ∃ t, ofActiveInWords? geometry o active = some t ∧
      t.Holds geometry centre active.matrix.cells.toList := by
  have hempty : Holds { geometry } geometry centre [] := ⟨rfl, rfl, rfl, rfl, rfl⟩
  refine ⟨_, ?_, hempty.foldl_push active.matrix.cells.toList⟩
  rw [ofActiveInWords?, ← Array.foldlM_toList]
  simp only [hcentre, Option.map_some]
  exact List.foldlM_pure

/-- If it has none, the first active cell stops it. -/
theorem ofActiveInWords?_of_stops (hsize : geometry.dims.sizeInWords? o = none)
    (active : ActiveCells) :
    ofActiveInWords? geometry o active = none ∧ active.matrix.cells ≠ #[] ∨
      ofActiveInWords? geometry o active = some { geometry } ∧ active.matrix.cells = #[] := by
  have hcentre : ∀ cell, geometry.centreInWords? o cell = none := fun cell => by
    rw [BoxGeometry.centreInWords?, GridDims.cellInWords?_of_stops hsize, Option.map_none]
  rw [ofActiveInWords?, ← Array.foldlM_toList, ne_eq, ← Array.toList_eq_nil_iff]
  cases active.matrix.cells.toList with
  | nil => exact .inr ⟨rfl, rfl⟩
  | cons cell rest =>
      rw [List.foldlM_cons, hcentre]
      exact .inl ⟨rfl, List.cons_ne_nil _ _⟩

/-! ## Reading it -/

namespace Holds

theorem centre?_eq (h : t.Holds geometry centre offered) (number : Nat) :
    t.centre? number = (offered.filterMap centre)[number]? := by
  rw [CentreTable.centre?, ← Array.getElem?_toList, ← Array.getElem?_toList,
    ← Array.getElem?_toList, h.xs, h.ys, h.zs, List.getElem?_map, List.getElem?_map,
    List.getElem?_map]
  cases (offered.filterMap centre)[number]? <;> rfl

theorem size_eq (h : t.Holds geometry centre offered) :
    t.size = offered.countP fun cell => (centre cell).isSome := by
  rw [CentreTable.size, ← Array.length_toList, h.cells, List.countP_eq_length_filter]

theorem columns (h : t.Holds geometry centre offered) :
    t.xs.size = t.size ∧ t.ys.size = t.size ∧ t.zs.size = t.size := by
  simp only [← Array.length_toList, h.xs, h.ys, h.zs, List.length_map,
    List.length_filterMap_eq_countP, h.size_eq, and_self]

theorem volumes (h : t.Holds geometry centre offered)
    (hvolume : ∀ cell, geometry.volumeInWords? o cell =
      some ((centre cell).map fun _ => geometry.cellVolume)) :
    ∃ volumes, t.volumesInWords? o = some volumes ∧ volumes.size = t.size ∧
      ∀ number < t.size, ∃ cell volume, t.cells[number]? = some cell ∧
        geometry.volumeInWords? o cell = some (some volume) ∧
        volumes[number]? = some volume := by
  refine ⟨t.cells.map fun cell => ((centre cell).map fun _ => geometry.cellVolume).getD 0, ?_,
    Array.size_map, fun number hnumber => ?_⟩
  · rw [volumesInWords?, h.ofGeometry]
    simp only [hvolume, Option.map_some]
    exact Array.mapM_pure
  · have hcell : t.cells[number]? = some t.cells[number] := Array.getElem?_eq_getElem hnumber
    have hmem : t.cells[number] ∈ t.cells.toList := Array.getElem_mem_toList hnumber
    rw [h.cells, List.mem_filter] at hmem
    obtain ⟨c, hc⟩ := Option.isSome_iff_exists.mp hmem.2
    refine ⟨_, geometry.cellVolume, hcell, by rw [hvolume, hc]; rfl, ?_⟩
    rw [Array.getElem?_map, hcell, Option.map_some, hc]
    rfl

end Holds

/-! ## The active cells in the geometry -/

theorem answers_of_size (hactive : active.matrix.cells.toList.Pairwise (· < ·))
    (hsize : geometry.dims.sizeInWords? o = some size) :
    ∃ t, ofActiveInWords? geometry o active = some t ∧ t.Answers geometry o active := by
  obtain ⟨cellOf, hcell, hbelow⟩ := GridDims.cellInWords?_of_size hsize
  have hcentre : ∀ cell, geometry.centreInWords? o cell =
      some ((cellOf cell).map geometry.centreOf) := fun cell => by
    rw [BoxGeometry.centreInWords?, hcell, Option.map_some]
  have hvolume : ∀ cell, geometry.volumeInWords? o cell =
      some (((cellOf cell).map geometry.centreOf).map fun _ => geometry.cellVolume) := by
    intro cell
    rw [BoxGeometry.volumeInWords?, hcell, Option.map_some, Option.map_map]
    rfl
  have hknown : ∀ cell, ((cellOf cell).map geometry.centreOf).isSome = decide (cell < size) :=
    fun cell => Option.isSome_map.trans (hbelow cell)
  obtain ⟨t, ht, hholds⟩ := exists_ofActiveInWords? hcentre active
  have hdivides : Divides (fun cell => ((cellOf cell).map geometry.centreOf).isSome)
      active.matrix.cells.toList := by
    simp only [hknown]
    exact hactive.imp fun hlt hlater =>
      decide_eq_true (Nat.lt_trans hlt (of_decide_eq_true hlater))
  refine ⟨t, ht, ?_⟩
  constructor
  case centre =>
    intro number
    rw [hholds.centre?_eq, Divides.getElem?_filterMap hdivides, CellNumbering.cell?,
      ← Array.getElem?_toList]
    cases active.matrix.cells.toList[number]? with
    | none => rfl
    | some cell => exact hcentre cell
  case size =>
    intro size' hsize'
    rw [hsize, Option.some.injEq] at hsize'
    simp only [hholds.size_eq, hknown, hsize']
  case unsized => exact fun hnone => absurd (hsize.symm.trans hnone) (Option.some_ne_none _)
  case cells => rw [hholds.cells, hholds.size_eq, hdivides.filter_eq_take]
  case columns => exact hholds.columns
  case volumes => exact hholds.volumes hvolume

/-- A table without entries answers where no cell is active. -/
theorem answers_of_empty (hactive : active.matrix.cells = #[])
    (hsize : geometry.dims.sizeInWords? o = none) : Answers { geometry } geometry o active := by
  have hcell : ∀ number, active.matrix.cell? number = none := fun number => by
    rw [CellNumbering.cell?, hactive]
    rfl
  constructor
  case centre => exact fun number => by rw [hcell]; rfl
  case size => exact fun size hsome => absurd (hsome.symm.trans hsize) (Option.some_ne_none _)
  case unsized => exact fun _ => hactive
  case cells => rfl
  case columns => exact ⟨rfl, rfl, rfl⟩
  case volumes =>
    exact ⟨#[], Array.mapM_empty _, rfl, fun number hnumber => absurd hnumber (Nat.not_lt_zero _)⟩

/-- Where the extents fit, the machine fills the table that they describe. -/
theorem ofActiveInWords?_of_lt (hlayer : geometry.dims.nx * geometry.dims.ny < UInt64.size)
    (hsize : geometry.dims.size < UInt64.size) (active : ActiveCells) :
    ofActiveInWords? geometry o active = some (ofActive geometry active) := by
  have hcentre : ∀ cell, geometry.centreInWords? o cell = some (geometry.centre? cell) :=
    fun cell => by
      rw [BoxGeometry.centreInWords?, GridDims.cellInWords?_eq hlayer hsize]
      rfl
  rw [ofActiveInWords?, ofActive, ← Array.foldlM_toList, ← Array.foldl_toList]
  simp only [hcentre, Option.map_some]
  exact List.foldlM_pure

/-- Whatever the geometry, an active number has the same centre in the table as its cell has in
the geometry. A machine that stops at an overflow fills no table if there are active cells to ask
for and the extents do not fit. -/
theorem ofActive_answers {grid : GridName} {dims : GridDims} {flags : Option (List Int32)}
    (h : ActiveCells.ofFlagsInWords? grid dims o flags = some (.ok active))
    (geometry : BoxGeometry) :
    (ofActiveInWords? geometry o active = none ↔ o = .stops ∧ active.matrix.cells ≠ #[] ∧
      (UInt64.size ≤ geometry.dims.nx * geometry.dims.ny ∨
        UInt64.size ≤ geometry.dims.size)) ∧
    (∀ t, ofActiveInWords? geometry o active = some t → t.Answers geometry o active) ∧
    (geometry.dims.nx * geometry.dims.ny < UInt64.size → geometry.dims.size < UInt64.size →
      ofActiveInWords? geometry o active = some (ofActive geometry active)) := by
  obtain ⟨_, -, hflags⟩ := Option.map_eq_some_iff.mp h
  have hactive := (ActiveCells.ranks_matrix hflags).pairwise
  refine ⟨?_, ?_, fun hlayer hsize => ofActiveInWords?_of_lt hlayer hsize active⟩
  · rw [and_left_comm, ← GridDims.sizeInWords?_eq_none]
    cases hsize : geometry.dims.sizeInWords? o with
    | some size =>
        obtain ⟨t, ht, -⟩ := answers_of_size hactive hsize
        simp only [ht, reduceCtorEq, and_false]
    | none =>
        rcases ofActiveInWords?_of_stops hsize active with ⟨ht, hne⟩ | ⟨ht, hnone⟩
        · exact iff_of_true ht ⟨hne, rfl⟩
        · simp only [ht, reduceCtorEq, hnone, ne_eq, not_true_eq_false, false_and]
  · intro t ht
    cases hsize : geometry.dims.sizeInWords? o with
    | some size =>
        obtain ⟨u, hu, hanswers⟩ := answers_of_size hactive hsize
        rw [ht, Option.some.injEq] at hu
        rwa [hu]
    | none =>
        rcases ofActiveInWords?_of_stops hsize active with ⟨hu, -⟩ | ⟨hu, hnone⟩
        · rw [ht] at hu
          cases hu
        · rw [ht, Option.some.injEq] at hu
          rw [hu]
          exact answers_of_empty hnone hsize

/-- A box of fewer cells than the grid below has. -/
def smallBox : BoxGeometry := ⟨.ofExtents 2 2 1, ⟨0, 0, 0⟩, ⟨1, 1, 2⟩⟩

/-- A box whose size is more than 64 bits hold, and zero in the low ones. -/
def hugeBox : BoxGeometry := ⟨.ofExtents 4294967296 4294967296 1, ⟨0, 0, 0⟩, ⟨1, 1, 2⟩⟩

/-- The last of four active cells is not in the small box. Of the huge one a machine knows none, or
it stops. -/
theorem ofActive_answers_smallBox : ∃ active, ∀ o,
    ActiveCells.ofFlagsInWords? .global (.ofExtents 3 2 1) o (some [1, 0, 3, 1, 2, -1]) =
        some (.ok active) ∧ active.matrix.cells = #[0, 2, 3, 5] ∧
      (ofActive smallBox active).Answers smallBox o active ∧
      (ofActive smallBox active).cells = #[0, 2, 3] ∧
      (ofActiveInWords? hugeBox o active = none ↔ o = .stops) ∧
      ∀ t, ofActiveInWords? hugeBox o active = some t →
        t.Answers hugeBox o active ∧ hugeBox.dims.sizeInWords? o = some 0 := by
  have hactive : ∀ o,
      ActiveCells.ofFlagsInWords? .global (.ofExtents 3 2 1) o (some [1, 0, 3, 1, 2, -1]) =
        some (.ok _) := fun o => ActiveCells.ofFlagsInWords?_of_lt (by decide) (by decide)
  have hhuge : UInt64.size ≤ hugeBox.dims.nx * hugeBox.dims.ny := by decide +kernel
  refine ⟨_, fun o => ⟨hactive o, rfl, ?_, by decide, ?_, fun t ht => ⟨?_, ?_⟩⟩⟩
  · exact (ofActive_answers (hactive o) smallBox).2.1 _
      ((ofActive_answers (hactive o) smallBox).2.2 (by decide) (by decide))
  · rw [(ofActive_answers (hactive o) hugeBox).1]
    exact ⟨fun h => h.1, fun h => ⟨h, by decide, .inl hhuge⟩⟩
  · exact (ofActive_answers (hactive o) hugeBox).2.1 t ht
  · cases o with
    | wraps => decide +kernel
    | stops =>
        rw [(ofActive_answers (hactive .stops) hugeBox).1.mpr ⟨rfl, by decide, .inl hhuge⟩] at ht
        cases ht

end CentreTable

end Wellbore
