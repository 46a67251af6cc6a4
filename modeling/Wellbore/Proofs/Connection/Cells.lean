import Wellbore.Proofs.Connection.Attachments
import Wellbore.Proofs.Grid.Registration

/-!
# The cell of an attachment

An attachment keeps two numbers for the cell of its connection, the number of the cell and
its active number. Both are numbers of the one grid that the connection names, so both can
be undone there whatever other grids are registered: the first leads back to the cell, and
the second to the first.
-/

namespace Wellbore

namespace Attachment

/-- The attachment has the numbers of a cell of the grid: the number of the cell, and its
active number if the offer of the grid marks it. -/
structure Locates (a : Attachment) (g : Grid) (o : GridOffer) (cell : Cell)
    (n : Nat) : Prop where
  cellIndex : a.cellIndex = some n
  indexOf : g.dims.indexOf? cell = some n
  lt_size : n < g.dims.size
  cellAt : g.dims.cellAt? n = some cell
  isSome_active : a.activeIndex.isSome = true ↔ o.Marks n
  cell_active : ∀ number, a.activeIndex = some number →
    number < g.active.matrix.cells.size ∧ g.active.matrix.cell? number = some n

/-- The attachment is one of a connection of the named grid, and has the numbers of its cell
in the grid that is registered under the name, as an offer makes it. -/
def LocatedIn (a : Attachment) (grids : GridCatalog) (offers : List GridOffer)
    (cs : List Connection) (name : GridName) : Prop :=
  ∃ c g o n, cs[a.connection]? = some c ∧ c.grid = name ∧ grids.find? name = some g ∧
    o ∈ offers ∧ o.Makes g ∧ a.Locates g o c.cell n

end Attachment

namespace Attachments

variable {as as' : Attachments} {grids : GridCatalog} {offers : List GridOffer}
  {segments : Option SegmentTable} {catalog : Option GridCatalog} {name : GridName}
  {c : Connection} {cs : List Connection} {a a' : Attachment} {n n' number : Nat}
  {g : Grid} {o o' : GridOffer} {cell cell' : Cell}

theorem locates_of_resolve (hmade : grids.MadeOf offers)
    (h : resolve segments (some grids) number c = .ok a) :
    ∃ g o n, grids.find? c.grid = some g ∧ o ∈ offers ∧ o.Makes g ∧
      a.Locates g o c.cell n := by
  obtain ⟨-, -, hcell⟩ := resolve_eq_ok.mp h
  obtain ⟨n, hindex, hn, hactive⟩ := cellOf_catalog_eq_ok.mp hcell
  obtain ⟨g, hfind, hindexOf⟩ := GridCatalog.indexOf_eq_ok.mp hindex
  obtain ⟨o, ho, hmakes⟩ := hmade g (GridCatalog.mem_of_find? hfind).1
  obtain ⟨hlt, hback⟩ := GridDims.cellAt?_of_indexOf? hindexOf
  obtain ⟨hmarks, hnumber⟩ := hmakes.numbering hlt
  rw [GridCatalog.activeNumber?, hfind, Option.bind_some] at hactive
  rw [← hactive] at hmarks hnumber
  exact ⟨g, o, n, hfind, ho, hmakes, hn, hindexOf, hlt, hback, hmarks, hnumber⟩

/-- In one grid, the same number is the same cell. -/
theorem cellIndex_eq_iff (h : a.Locates g o cell n) (h' : a'.Locates g o' cell' n') :
    a.cellIndex = a'.cellIndex ↔ cell = cell' := by
  rw [h.cellIndex, h'.cellIndex, Option.some.injEq]
  refine ⟨fun hn => ?_, fun hcell => ?_⟩
  · rw [hn] at h
    exact GridDims.indexOf?_inj h.indexOf h'.indexOf
  · have hindexOf := h.indexOf
    rw [hcell, h'.indexOf, Option.some.injEq] at hindexOf
    exact hindexOf.symm

/-- What an attaching that ends well puts behind the attachments of a grid: one for each
connection of the grid, in order. -/
theorem inGrid_of_attach (h : as.attach segments cs catalog = (.ok (), as'))
    (name : GridName) : ∃ fresh, as'.inGrid name = as.inGrid name ++ fresh ∧
      List.Forall₂ (fun c a => resolve segments catalog c.2 c.1 = .ok a)
        (cs.zipIdx.filter fun c => c.1.grid = name) fresh := by
  obtain ⟨fresh, hfresh, hresolved, -⟩ := appends_of_attach h name
  exact ⟨fresh, hfresh, hresolved.imp fun _ _ ha => ha.2⟩

/-- Attaching that ends well gives every connection of a grid an attachment, in order and
with numbers that can be undone in that grid, of which the active one stands where the
grid's flags put it. So attachments of one grid have the same number exactly if they are
about the same cell. -/
theorem attach_located {ds : List GridDescription} {rs : List Registration}
    (hgrids : GridCatalog.ofDescriptions ds = .ok grids)
    (hoffers : ∀ r ∈ rs, ∃ o ∈ offers, o.Makes r.offered)
    (hattach : as.attach segments cs (some (grids.registerAll rs)) = (.ok (), as'))
    (name : GridName) : ∃ fresh, as'.inGrid name = as.inGrid name ++ fresh ∧
      fresh.map (·.connection) = (cs.zipIdx.filter fun c => c.1.grid = name).map (·.2) ∧
      (∀ a ∈ fresh, a.LocatedIn (grids.registerAll rs)
        (ds.map GridDescription.offer ++ offers) cs name) ∧
      ∀ a ∈ fresh, ∀ a' ∈ fresh, ∀ c c', cs[a.connection]? = some c →
        cs[a'.connection]? = some c' → (a.cellIndex = a'.cellIndex ↔ c.cell = c'.cell) := by
  have hmade := GridCatalog.madeOf_registerAll hgrids hoffers
  obtain ⟨fresh, hfresh, hresolved⟩ := inGrid_of_attach hattach name
  have hlocated : ∀ a ∈ fresh, a.LocatedIn (grids.registerAll rs)
      (ds.map GridDescription.offer ++ offers) cs name := by
    intro a ha
    obtain ⟨⟨c, number⟩, hc, hresolve⟩ := exists_mem_of_forall₂ hresolved ha
    obtain ⟨hmem, hgrid⟩ := List.mem_filter.mp hc
    have hname : c.grid = name := of_decide_eq_true hgrid
    obtain ⟨g, o, n, hfind, ho, hmakes, hlocates⟩ := locates_of_resolve hmade hresolve
    rw [hname] at hfind
    obtain rfl : a.connection = number := (resolve_eq_ok.mp hresolve).1
    exact ⟨c, g, o, n, List.mem_zipIdx_iff_getElem?.mp hmem, hname, hfind, ho, hmakes, hlocates⟩
  refine ⟨fresh, hfresh, ?_, hlocated, ?_⟩
  · rw [← List.forall₂_eq_eq_eq, List.forall₂_map_left_iff, List.forall₂_map_right_iff]
    exact (hresolved.imp fun _ _ ha => (resolve_eq_ok.mp ha).1).flip
  · intro a ha a' ha' c c' hc hc'
    obtain ⟨c₁, g₁, o₁, n₁, hc₁, -, hg₁, -, -, hloc₁⟩ := hlocated a ha
    obtain ⟨c₂, g₂, o₂, n₂, hc₂, -, hg₂, -, -, hloc₂⟩ := hlocated a' ha'
    rw [hc, Option.some.injEq] at hc₁
    rw [hc', Option.some.injEq] at hc₂
    rw [hg₁, Option.some.injEq] at hg₂
    subst hc₁ hc₂ hg₂
    exact cellIndex_eq_iff hloc₁ hloc₂

/-- The global grid, and a refinement with an inactive cell and one that is fractured only. -/
def refinedCase : List GridDescription :=
  [{ name := .global, nx := 4, ny := 3, nz := 2 },
    { name := .refinement "LGR1", nx := 3, ny := 2, nz := 1, flags := some [1, 0, 3, 2, 1, 1] }]

/-- The grids of the case: the cells of the refinement are numbered by its own flags. -/
def refinedGrids : GridCatalog :=
  ⟨[⟨.global, .full (.ofExtents 4 3 2), none⟩,
    ⟨.refinement "LGR1", ⟨⟨3, 2, 1, 4⟩,
      ⟨#[some 0, none, some 1, none, some 2, some 3], #[0, 2, 4, 5]⟩,
      ⟨#[none, none, some 0, some 1, none, none], #[2, 3]⟩⟩, none⟩]⟩

/-- What a further grid is made of, and one that is refused as its name is taken. -/
def furtherOffers : List GridOffer :=
  [⟨.refinement "LGR2", .ofExtents 2 2 2, none⟩,
    ⟨.refinement "LGR1", .ofExtents 1 1 3, some [1, 2, 1]⟩]

def furtherGrids : List Registration :=
  [.full (.refinement "LGR2") (.ofExtents 2 2 2),
    .grid ⟨.refinement "LGR1", ⟨⟨1, 1, 3, 2⟩, ⟨#[some 0, none, some 1], #[0, 2]⟩,
      ⟨#[none, some 0, none], #[1]⟩⟩, none⟩]

/-- Connections in both grids, in turns; one cell of the refinement is named twice. -/
def mixedConnections : List Connection :=
  [(.global, ⟨2, 1, 0⟩), (.refinement "LGR1", ⟨2, 1, 0⟩), (.refinement "LGR1", ⟨0, 1, 0⟩),
    (.global, ⟨3, 2, 1⟩), (.refinement "LGR1", ⟨2, 1, 0⟩)].map fun (grid, cell) =>
      { grid, cell, isOpen := true }

theorem attach_located_mixedConnections : ∃ as' fresh,
    GridCatalog.ofDescriptions refinedCase = .ok refinedGrids ∧
    attach {} none mixedConnections (some (refinedGrids.registerAll furtherGrids)) =
      (.ok (), as') ∧
    as'.inGrid (.refinement "LGR1") = fresh ∧
    fresh.map (fun a => (a.connection, a.cellIndex, a.activeIndex)) =
      [(1, some 5, some 3), (2, some 3, none), (4, some 5, some 3)] ∧
    (∀ a ∈ fresh, a.LocatedIn (refinedGrids.registerAll furtherGrids)
      (refinedCase.map GridDescription.offer ++ furtherOffers)
      mixedConnections (.refinement "LGR1")) ∧
    ∀ a ∈ fresh, ∀ a' ∈ fresh, ∀ c c', mixedConnections[a.connection]? = some c →
      mixedConnections[a'.connection]? = some c' →
        (a.cellIndex = a'.cellIndex ↔ c.cell = c'.cell) := by
  have hgrids : GridCatalog.ofDescriptions refinedCase = .ok refinedGrids := by decide +kernel
  have hattach : attach {} none mixedConnections (some (refinedGrids.registerAll furtherGrids)) =
      (.ok (), (attach {} none mixedConnections
        (some (refinedGrids.registerAll furtherGrids))).2) := Prod.ext (by decide +kernel) rfl
  have hoffers : ∀ r ∈ furtherGrids, ∃ o ∈ furtherOffers, o.Makes r.offered := by
    rw [furtherGrids, furtherOffers, List.forall_mem_cons, List.forall_mem_singleton]
    exact ⟨⟨_, List.mem_cons_self, rfl, .global, rfl⟩,
      ⟨_, List.mem_cons_of_mem _ List.mem_cons_self, rfl, .global, rfl⟩⟩
  obtain ⟨fresh, hfresh, -, hlocated, hcells⟩ :=
    attach_located hgrids hoffers hattach (.refinement "LGR1")
  refine ⟨_, fresh, hgrids, hattach, hfresh, ?_, hlocated, hcells⟩
  have h := congrArg (List.map fun a => (a.connection, a.cellIndex, a.activeIndex)) hfresh
  exact h.symm.trans (by decide +kernel)

end Attachments

end Wellbore
