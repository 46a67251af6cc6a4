import Mathlib.Data.List.Forall2
import Wellbore.Proofs.Grid.Ranks
import Wellbore.Proofs.Grid.Registration

/-!
# Which descriptions make a catalog

A list of descriptions makes a catalog exactly if it is consistent, and then there is a grid for
each description. Otherwise the first description that does not fit those before it is complained
of, and of what is wrong with it the first thing: no cells, flags that are not one for each cell,
a name that is taken.

The descriptions are gone through one by one, so what one of them does to a catalog that holds the
grids of those before it (`insertAll_of_fits`, `insertAll_of_unfit`) says what the whole list
does: a list is consistent or has a first description that does not fit (`consistent_or_unfit`).
-/

namespace Wellbore

namespace GridDescription

variable {d : GridDescription} {ds earlier before after : List GridDescription} {g : Grid}
  {e : GridError}

def HasCells (d : GridDescription) : Prop := 0 < d.nx ∧ 0 < d.ny ∧ 0 < d.nz

/-- Flags, where they are given, are one for each cell. -/
def FlagsFit (d : GridDescription) : Prop :=
  ∀ flags, d.flags = some flags → flags.length = d.nx * d.ny * d.nz

/-- Nothing is wrong with any of the descriptions, and no two have the same name. -/
structure Consistent (ds : List GridDescription) : Prop where
  hasCells : ∀ d ∈ ds, d.HasCells
  flagsFit : ∀ d ∈ ds, d.FlagsFit
  distinct : (ds.map GridDescription.name).Nodup

/-- Nothing is wrong with the description, and none of the earlier ones has its name. -/
structure Fits (earlier : List GridDescription) (d : GridDescription) : Prop where
  hasCells : d.HasCells
  flagsFit : d.FlagsFit
  fresh : d.name ∉ earlier.map GridDescription.name

/-- The description is refused after the earlier ones for this cause. -/
inductive Unfit (earlier : List GridDescription) (d : GridDescription) : GridError → Prop where
  | noCells (empty : ¬ d.HasCells) :
      Unfit earlier d (.badDimensions (.ofNat d.nx) (.ofNat d.ny) (.ofNat d.nz))
  | flagCount {flags : List Int32} (cells : d.HasCells) (given : d.flags = some flags)
      (length : flags.length ≠ d.nx * d.ny * d.nz) :
      Unfit earlier d (.actnumSize d.name flags.length (d.nx * d.ny * d.nz))
  | taken (cells : d.HasCells) (flags : d.FlagsFit)
      (name : d.name ∈ earlier.map GridDescription.name) :
      Unfit earlier d (.duplicateGrid d.name)

/-- Which cells are active matrix cells. -/
def marks (d : GridDescription) : List Bool :=
  ActiveCells.matrixMarks (d.nx * d.ny * d.nz) d.flags

/-- The grid is the one that is described. -/
structure Describes (d : GridDescription) (g : Grid) : Prop where
  name : g.name = d.name
  extents : g.dims = ⟨d.nx, d.ny, d.nz, g.dims.nactive⟩
  active : g.active.matrix.Ranks d.marks
  nactive : g.dims.nactive = d.marks.count true
  hasGeometry : g.geometry.isSome = d.cellSize.isSome
  geometry : ∀ box, g.geometry = some box →
    box.dims = g.dims ∧ box.origin = d.origin.getD ⟨0, 0, 0⟩ ∧ d.cellSize = some box.cellSize

theorem hasCells_iff : d.HasCells ↔ (GridDims.ofExtents d.nx d.ny d.nz).size ≠ 0 := by
  rw [HasCells, GridDims.size, GridDims.ofExtents]
  simp only [Nat.mul_ne_zero_iff, Nat.pos_iff_ne_zero, and_assoc]

theorem consistent_append : Consistent (ds ++ [d]) ↔ Consistent ds ∧ d.Fits ds := by
  have hnames : ((ds ++ [d]).map GridDescription.name).Nodup ↔
      (ds.map GridDescription.name).Nodup ∧ d.name ∉ ds.map GridDescription.name := by
    rw [List.map_append, List.map_singleton, ← List.concat_eq_append, List.nodup_concat, and_comm]
  constructor
  · rintro ⟨hcells, hflags, hdistinct⟩
    rw [List.forall_mem_append] at hcells hflags
    have hlast : d ∈ [d] := List.mem_singleton_self d
    exact ⟨⟨hcells.1, hflags.1, (hnames.mp hdistinct).1⟩,
      ⟨hcells.2 d hlast, hflags.2 d hlast, (hnames.mp hdistinct).2⟩⟩
  · rintro ⟨⟨hcells, hflags, hdistinct⟩, ⟨hcell, hflag, hfresh⟩⟩
    exact ⟨List.forall_mem_append.mpr ⟨hcells, List.forall_mem_singleton.mpr hcell⟩,
      List.forall_mem_append.mpr ⟨hflags, List.forall_mem_singleton.mpr hflag⟩,
      hnames.mpr ⟨hdistinct, hfresh⟩⟩

theorem Consistent.of_append (h : Consistent (ds ++ after)) : Consistent ds := by
  induction after using List.reverseRecOn with
  | nil => rwa [List.append_nil] at h
  | append_singleton after d ih =>
      rw [← List.append_assoc] at h
      exact ih (consistent_append.mp h).1

theorem fits_or_unfit (earlier : List GridDescription) (d : GridDescription) :
    d.Fits earlier ∨ ∃ e, d.Unfit earlier e := by
  by_cases hcells : d.HasCells
  · by_cases hflags : d.FlagsFit
    · by_cases hname : d.name ∈ earlier.map GridDescription.name
      · exact .inr ⟨_, .taken hcells hflags hname⟩
      · exact .inl ⟨hcells, hflags, hname⟩
    · simp only [FlagsFit, not_forall] at hflags
      obtain ⟨flags, hgiven, hlength⟩ := hflags
      exact .inr ⟨_, .flagCount hcells hgiven hlength⟩
  · exact .inr ⟨_, .noCells hcells⟩

/-- A list is consistent or there is a first description that does not fit. -/
theorem consistent_or_unfit (ds : List GridDescription) :
    Consistent ds ∨ ∃ before d after e, ds = before ++ d :: after ∧ Consistent before ∧
      d.Unfit before e := by
  induction ds using List.reverseRecOn with
  | nil => exact .inl ⟨by simp, by simp, by simp⟩
  | append_singleton ds d ih =>
      rcases ih with hds | ⟨before, d', after, e, rfl, hbefore, hunfit⟩
      · rcases fits_or_unfit ds d with hfits | ⟨e, hunfit⟩
        · exact .inl (consistent_append.mpr ⟨hds, hfits⟩)
        · exact .inr ⟨ds, d, [], e, rfl, hds, hunfit⟩
      · exact .inr ⟨before, d', after ++ [d], e, by simp, hbefore, hunfit⟩

end GridDescription

namespace GridCatalog

open GridDescription (Consistent Describes Unfit consistent_or_unfit)

variable {c : GridCatalog} {d : GridDescription} {ds rest earlier : List GridDescription}
  {g : Grid} {e : GridError}

/-! ## One description -/

theorem gridOf_of_noCells (h : ¬ d.HasCells) :
    gridOf d = .error (.badDimensions (.ofNat d.nx) (.ofNat d.ny) (.ofNat d.nz)) := by
  rw [GridDescription.hasCells_iff, not_not] at h
  rw [gridOf, if_pos h]
  rfl

theorem gridOf_of_hasCells (h : d.HasCells) :
    gridOf d = (ActiveCells.ofFlags? d.name (.ofExtents d.nx d.ny d.nz) d.flags).map fun active =>
      ⟨d.name, active, d.cellSize.map fun size =>
        ⟨active.dims, d.origin.getD ⟨0, 0, 0⟩, size⟩⟩ := by
  rw [GridDescription.hasCells_iff] at h
  rw [gridOf, if_neg h]
  cases ActiveCells.ofFlags? d.name (.ofExtents d.nx d.ny d.nz) d.flags <;> rfl

theorem gridOf_of_flagCount {flags : List Int32} (hcells : d.HasCells)
    (hgiven : d.flags = some flags) (hlength : flags.length ≠ d.nx * d.ny * d.nz) :
    gridOf d = .error (.actnumSize d.name flags.length (d.nx * d.ny * d.nz)) := by
  have hrefused : ActiveCells.ofFlags? d.name (.ofExtents d.nx d.ny d.nz) (some flags) =
      .error (.actnumSize d.name flags.length (d.nx * d.ny * d.nz)) :=
    ActiveCells.markedOf_of_length_ne hlength
  rw [gridOf_of_hasCells hcells, hgiven, hrefused]
  rfl

theorem exists_gridOf (hcells : d.HasCells) (hflags : d.FlagsFit) :
    ∃ g, gridOf d = .ok g ∧ d.Describes g := by
  obtain ⟨active, hactive⟩ :
      ∃ a, ActiveCells.ofFlags? d.name (.ofExtents d.nx d.ny d.nz) d.flags = .ok a := by
    cases hgiven : d.flags with
    | none => exact ⟨_, rfl⟩
    | some flags => exact ⟨_, ActiveCells.markedOf_of_length (hflags flags hgiven)⟩
  have hranks : active.matrix.Ranks d.marks := ActiveCells.ranks_matrix hactive
  have hdims := ActiveCells.dims_of_ofFlags? hactive
  refine ⟨_, by rw [gridOf_of_hasCells hcells, hactive]; rfl, ?_⟩
  constructor
  case name => rfl
  case extents => rw [Grid.dims, hdims]
  case active => exact hranks
  case nactive => rw [Grid.dims, hdims, ← hranks.size]
  case hasGeometry => exact Option.isSome_map
  case geometry =>
    intro box hbox
    obtain ⟨size, hsize, rfl⟩ := Option.map_eq_some_iff.mp hbox
    exact ⟨rfl, rfl, hsize⟩

theorem names_of_describes (h : List.Forall₂ Describes ds c.grids) :
    c.names = ds.map GridDescription.name := by
  rw [names]
  generalize c.grids = grids at h
  induction h with
  | nil => rfl
  | cons hd _ ih => rw [List.map_cons, List.map_cons, ih, hd.name]

/-- A description that fits adds its grid. -/
theorem insertAll_of_fits (h : List.Forall₂ Describes earlier c.grids) (hfits : d.Fits earlier)
    (rest : List GridDescription) :
    ∃ c' : GridCatalog, List.Forall₂ Describes (earlier ++ [d]) c'.grids ∧
      c.insertAll (d :: rest) = c'.insertAll rest := by
  obtain ⟨g, hg, hdescribes⟩ := exists_gridOf hfits.hasCells hfits.flagsFit
  have hfree : g.name ∉ c.names := by
    rw [hdescribes.name, names_of_describes h]
    exact hfits.fresh
  refine ⟨⟨c.grids ++ [g]⟩, List.rel_append h (.cons hdescribes .nil), ?_⟩
  rw [insertAll, hg]
  simp only [insert_of_free hfree, bind, Except.bind]

/-- A description that does not fit ends it. -/
theorem insertAll_of_unfit (h : List.Forall₂ Describes earlier c.grids)
    (hunfit : d.Unfit earlier e) (rest : List GridDescription) :
    c.insertAll (d :: rest) = .error e := by
  rw [insertAll]
  cases hunfit with
  | noCells hempty => rw [gridOf_of_noCells hempty]; rfl
  | flagCount hcells hgiven hlength => rw [gridOf_of_flagCount hcells hgiven hlength]; rfl
  | taken hcells hflags hname =>
      obtain ⟨g, hg, hdescribes⟩ := exists_gridOf hcells hflags
      have htaken : g.name ∈ c.names := by rwa [hdescribes.name, names_of_describes h]
      rw [hg]
      simp only [insert_of_taken htaken, bind, Except.bind, hdescribes.name]
      rfl

/-! ## A list of descriptions -/

theorem insertAll_of_consistent (h : List.Forall₂ Describes earlier c.grids)
    (hall : Consistent (earlier ++ ds)) (rest : List GridDescription) :
    ∃ c' : GridCatalog, List.Forall₂ Describes (earlier ++ ds) c'.grids ∧
      c.insertAll (ds ++ rest) = c'.insertAll rest := by
  induction ds generalizing c earlier with
  | nil => exact ⟨c, by rwa [List.append_nil], rfl⟩
  | cons d ds ih =>
      rw [List.append_cons] at hall ⊢
      have hfits : d.Fits earlier := (GridDescription.consistent_append.mp hall.of_append).2
      obtain ⟨c', hc', hstep⟩ := insertAll_of_fits h hfits (ds ++ rest)
      obtain ⟨last, hlast, hrest⟩ := ih hc' hall
      exact ⟨last, hlast, hstep.trans hrest⟩

theorem ofDescriptions_of_consistent (h : Consistent ds) :
    ∃ c, ofDescriptions ds = .ok c ∧ List.Forall₂ Describes ds c.grids := by
  obtain ⟨c, hc, hall⟩ := insertAll_of_consistent (c := {}) .nil h []
  rw [List.append_nil] at hall
  exact ⟨c, hall, hc⟩

theorem ofDescriptions_of_unfit {before after : List GridDescription} (h : Consistent before)
    (hunfit : d.Unfit before e) : ofDescriptions (before ++ d :: after) = .error e := by
  obtain ⟨c, hc, hall⟩ := insertAll_of_consistent (c := {}) .nil h (d :: after)
  rw [ofDescriptions, hall]
  exact insertAll_of_unfit hc hunfit after

theorem ofDescriptions_eq_ok (h : ofDescriptions ds = .ok c) :
    Consistent ds ∧ List.Forall₂ Describes ds c.grids := by
  rcases consistent_or_unfit ds with hds | ⟨before, d, after, e, rfl, hbefore, hunfit⟩
  · obtain ⟨c', hok, hdescribes⟩ := ofDescriptions_of_consistent hds
    rw [h, Except.ok.injEq] at hok
    exact ⟨hds, hok ▸ hdescribes⟩
  · rw [ofDescriptions_of_unfit hbefore hunfit] at h
    cases h

theorem ofDescriptions_eq_error : ofDescriptions ds = .error e ↔
    ∃ before d after, ds = before ++ d :: after ∧ Consistent before ∧ d.Unfit before e := by
  constructor
  · intro h
    rcases consistent_or_unfit ds with hds | ⟨before, d, after, e', hsplit, hbefore, hunfit⟩
    · obtain ⟨c, hok, -⟩ := ofDescriptions_of_consistent hds
      rw [h] at hok
      cases hok
    · rw [hsplit, ofDescriptions_of_unfit hbefore hunfit, Except.error.injEq] at h
      exact ⟨before, d, after, hsplit, hbefore, h ▸ hunfit⟩
  · rintro ⟨before, d, after, rfl, hbefore, hunfit⟩
    exact ofDescriptions_of_unfit hbefore hunfit

/-- A global grid with an inactive cell, and one refinement. -/
def twoDescriptions : List GridDescription :=
  [⟨.global, 3, 2, 1, some [1, 1, 0, 1, 1, 1], none, some ⟨50, 50, 10⟩⟩,
    ⟨.refinement "A", 2, 2, 2, none, none, none⟩]

/-- Another global grid, and two of one name. -/
def threeRegistrations : List Registration :=
  [.full .global (.ofExtents 1 1 1), .full (.refinement "B") (.ofExtents 2 1 1),
    .grid ⟨.refinement "B", .full (.ofExtents 4 1 1), none⟩]

end GridCatalog

end Wellbore
