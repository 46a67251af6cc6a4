import Wellbore.Proofs.Reconstruction.Stages
import Wellbore.Restart.Plan
import Mathlib.Data.List.Nodup

/-!
# A reconstructed snapshot agrees with itself

What a snapshot says about the connections of a well it says three times: in the
connection lists, in the attachments by grid and in the numbers by owner. Each
grid adds to all three at once, and as long as no two grids share a name, no
addition touches what another one has left. So it is enough that one grid adds
consistently to a place that was empty.

The segment numbers fit as well, because a connection is read with a segment
number exactly when the snapshot has a segment table to resolve it in.
-/

namespace Wellbore

namespace Snapshot

open Attachments (Agree Files resolve resolve_eq_ok)

variable {h : ReportHeader} {catalog : Option GridCatalog} {r : GridRecords}
  {rs : List GridRecords} {s s' : Snapshot} {g : GridName} {a : Attachment} {c : Connection}

/-- The connections in a grid, none if the well is not in it. -/
def connectionsIn (s : Snapshot) (g : GridName) : List Connection :=
  (s.connections.get? g).getD []

/-- The attachments are what the connections resolve to, in order. -/
structure Tidy (catalog : Option GridCatalog) (s : Snapshot) : Prop where
  agree : s.attachments.Agree
  attached : ∀ g, List.Forall₂
    (fun c a => resolve s.segments catalog c.2 c.1 = .ok a)
    (s.connectionsIn g).zipIdx (s.attachments.inGrid g)
  grid_eq : ∀ g, ∀ c ∈ s.connectionsIn g, c.grid = g
  named : ∀ g, ∀ c ∈ s.connectionsIn g, c.segmentId.isSome = s.isSegmented

/-! ## One grid -/

theorem grid_of_files {segments : Option SegmentTable} {cs : List Connection} {n : Nat}
    {filed : List (GridName × Attachment)}
    (hfiled : List.Forall₂ (Files segments catalog) (cs.zipIdx n) filed)
    (hgrid : ∀ c ∈ cs, c.grid = g) : ∀ e ∈ filed, e.1 = g := by
  induction cs generalizing n filed with
  | nil =>
      rw [List.zipIdx_nil, List.forall₂_nil_left_iff] at hfiled
      simp [hfiled]
  | cons c cs ih =>
      rw [List.zipIdx_cons, List.forall₂_cons_left_iff] at hfiled
      obtain ⟨e, filed, ⟨he, -⟩, hrest, rfl⟩ := hfiled
      intro e' he'
      rcases List.mem_cons.mp he' with rfl | he'
      · rw [he]
        exact hgrid c (List.mem_cons_self ..)
      · exact ih hrest (fun c hc => hgrid c (List.mem_cons_of_mem _ hc)) e' he'

theorem connectionsIn_addGrid_self {head : Cell} {cs : List Connection}
    {as : Attachments} :
    ({ s.addGrid g head cs with attachments := as }).connectionsIn g = cs := by
  unfold connectionsIn addGrid
  rw [SortedMap.get?_insert_self]
  rfl

theorem connectionsIn_addGrid_of_ne {g' : GridName} {head : Cell} {cs : List Connection}
    {as : Attachments} (hne : g' ≠ g) :
    ({ s.addGrid g head cs with attachments := as }).connectionsIn g' = s.connectionsIn g' := by
  unfold connectionsIn addGrid
  rw [SortedMap.get?_insert_of_ne hne]

/-- A grid that was empty before is consistent after. -/
theorem Tidy.addGrid (hs : s.Tidy catalog) {head : Cell} {cs : List Connection}
    {as : Attachments} (hempty : s.connectionsIn g = [])
    (hgrid : ∀ c ∈ cs, c.grid = g) (hnamed : ∀ c ∈ cs, c.segmentId.isSome = s.isSegmented)
    (hattach : s.attachments.attach s.segments cs catalog = (.ok (), as)) :
    ({ s.addGrid g head cs with attachments := as } : Snapshot).Tidy catalog := by
  obtain ⟨filed, hfiled, rfl⟩ := Attachments.attach_eq_ok hattach
  have hall := grid_of_files hfiled hgrid
  refine ⟨hs.agree.addAll, fun g' => ?_, fun g' => ?_, fun g' => ?_⟩
  · by_cases hg : g' = g
    · subst hg
      have hnone := hs.attached g'
      rw [hempty, List.zipIdx_nil, List.forall₂_nil_left_iff] at hnone
      rw [connectionsIn_addGrid_self]
      show List.Forall₂ _ _ ((s.attachments.addAll filed).inGrid g')
      rw [Attachments.inGrid_addAll, hnone, List.nil_append,
        List.filter_eq_self.mpr (by simpa using hall), List.forall₂_map_right_iff]
      exact hfiled.imp fun c e hce => hce.2
    · have hother : (filed.filter fun e => e.1 = g') = [] := by
        rw [List.filter_eq_nil_iff]
        intro e he
        rw [hall e he]
        simp [Ne.symm hg]
      rw [connectionsIn_addGrid_of_ne hg]
      show List.Forall₂ _ _ ((s.attachments.addAll filed).inGrid g')
      rw [Attachments.inGrid_addAll, hother, List.map_nil, List.append_nil]
      exact hs.attached g'
  · by_cases hg : g' = g
    · subst hg
      rw [connectionsIn_addGrid_self]
      exact hgrid
    · rw [connectionsIn_addGrid_of_ne hg]
      exact hs.grid_eq g'
  · by_cases hg : g' = g
    · subst hg
      rw [connectionsIn_addGrid_self]
      exact hnamed
    · rw [connectionsIn_addGrid_of_ne hg]
      exact hs.named g'

/-! ## All grids -/

theorem tidy_bare {w : WellHeader} {topology : Option (SegmentTable × BranchList)} :
    (Report.bare h w topology).Tidy catalog where
  agree := Attachments.agree_empty
  attached _ := .nil
  grid_eq _ _ hc := absurd hc List.not_mem_nil
  named _ _ hc := absurd hc List.not_mem_nil

theorem Tidy.adds (hs : s.Tidy catalog) (hempty : s.connectionsIn r.grid = [])
    (hadds : Report.Adds h catalog r s s') : s'.Tidy catalog := by
  cases hadds with
  | absent => exact hs
  | present hfound hheader hload hattach =>
      refine hs.addGrid hempty (fun c => Connection.grid_of_mem_load hload) (fun c hc => ?_) hattach
      obtain ⟨row, hrow⟩ := Connection.decode_of_mem_load hload hc
      exact Connection.isSome_segmentId_of_decode hrow

theorem connectionsIn_of_adds (hadds : Report.Adds h catalog r s s') (hne : g ≠ r.grid) :
    s'.connectionsIn g = s.connectionsIn g := by
  cases hadds with
  | absent => rfl
  | present => exact connectionsIn_addGrid_of_ne hne

/-- With distinct grid names each grid finds its place empty. -/
theorem Tidy.addGrids (hs : s.Tidy catalog) (hdistinct : (rs.map (·.grid)).Nodup)
    (hempty : ∀ r ∈ rs, s.connectionsIn r.grid = [])
    (hadd : Report.addGrids h catalog rs s = .ok s') : s'.Tidy catalog := by
  induction rs generalizing s with
  | nil =>
      rw [Report.addGrids_nil_eq_ok] at hadd
      rw [hadd]
      exact hs
  | cons r rest ih =>
      obtain ⟨u, hadds, hrest⟩ := Report.addGrids_cons_eq_ok.mp hadd
      rw [List.map_cons, List.nodup_cons] at hdistinct
      refine ih (hs.adds (hempty r (List.mem_cons_self ..)) hadds) hdistinct.2 ?_ hrest
      intro r' hr'
      have hne : r'.grid ≠ r.grid := fun heq =>
        hdistinct.1 (heq ▸ List.mem_map_of_mem hr')
      rw [connectionsIn_of_adds hadds hne]
      exact hempty r' (List.mem_cons_of_mem _ hr')

/-! ## What the attachments say -/

namespace Tidy

theorem length_eq (hs : s.Tidy catalog) :
    (s.attachments.inGrid g).length = (s.connectionsIn g).length := by
  rw [← (hs.attached g).length_eq, List.length_zipIdx]

/-- An attachment resolves the connection whose number it has. -/
theorem resolved (hs : s.Tidy catalog) {n : Nat} (ha : (s.attachments.inGrid g)[n]? = some a) :
    ∃ c, (s.connectionsIn g)[n]? = some c ∧
      resolve s.segments catalog n c = .ok a := by
  obtain ⟨hlt, rfl⟩ := List.getElem?_eq_some_iff.mp ha
  have hlt' : n < (s.connectionsIn g).zipIdx.length := by
    rw [List.length_zipIdx, ← hs.length_eq]
    exact hlt
  have hget := (List.forall₂_iff_get.mp (hs.attached g)).2 n hlt' hlt
  simp only [List.get_eq_getElem, List.getElem_zipIdx, Nat.zero_add] at hget
  rw [List.length_zipIdx] at hlt'
  exact ⟨_, List.getElem?_eq_getElem hlt', hget⟩

theorem numbered (hs : s.Tidy catalog) :
    (s.attachments.inGrid g).map (·.connection) = List.range (s.connectionsIn g).length := by
  refine List.ext_getElem? fun n => ?_
  rw [List.getElem?_map]
  by_cases hlt : n < (s.connectionsIn g).length
  · have ha := List.getElem?_eq_getElem (hs.length_eq (g := g) ▸ hlt)
    obtain ⟨c, -, hres⟩ := hs.resolved ha
    rw [ha, List.getElem?_range hlt, Option.map_some, (resolve_eq_ok.mp hres).1]
  · rw [List.getElem?_eq_none (by rw [hs.length_eq]; omega), Option.map_none,
      List.getElem?_eq_none (by rw [List.length_range]; omega)]

theorem of_mem (hs : s.Tidy catalog) (ha : a ∈ s.attachments.inGrid g) :
    ∃ c, (s.connectionsIn g)[a.connection]? = some c ∧
      resolve s.segments catalog a.connection c = .ok a := by
  obtain ⟨n, hn⟩ := List.mem_iff_getElem?.mp ha
  obtain ⟨c, hc, hres⟩ := hs.resolved hn
  have hnumber := (resolve_eq_ok.mp hres).1
  rw [hnumber]
  exact ⟨c, hc, hres⟩

theorem exists_of_lt (hs : s.Tidy catalog) {n : Nat} (hn : n < (s.connectionsIn g).length) :
    ∃ a ∈ s.attachments.inGrid g, a.connection = n := by
  have hmem := List.mem_range.mpr hn
  rw [← hs.numbered] at hmem
  obtain ⟨a, ha, heq⟩ := List.mem_map.mp hmem
  exact ⟨a, ha, heq⟩

theorem eq_of_connection_eq (hs : s.Tidy catalog) {b : Attachment}
    (ha : a ∈ s.attachments.inGrid g) (hb : b ∈ s.attachments.inGrid g)
    (heq : a.connection = b.connection) : a = b := by
  have hnodup : ((s.attachments.inGrid g).map (·.connection)).Nodup := by
    rw [hs.numbered]
    exact List.nodup_range
  exact List.inj_on_of_nodup_map hnodup ha hb heq

theorem mem_ownedBy (hs : s.Tidy catalog) {owner : Owner} {n : Nat} :
    n ∈ s.attachments.ownedBy owner g ↔
      ∃ a ∈ s.attachments.inGrid g, a.owner = owner ∧ a.connection = n := by
  rw [hs.agree owner g]
  simp only [List.mem_map, List.mem_filter, decide_eq_true_eq, and_assoc]

theorem ownedBy_eq_nil (hs : s.Tidy catalog) {owner : Owner}
    (hne : ∀ a ∈ s.attachments.inGrid g, a.owner ≠ owner) :
    s.attachments.ownedBy owner g = [] := by
  rw [hs.agree owner g, List.filter_eq_nil_iff.mpr (by simpa using hne), List.map_nil]

end Tidy

/-! ## Consistency -/

/-- The connections of a segmented well in a grid. -/
structure Segmented (s : Snapshot) (t : SegmentTable) (g : GridName) : Prop where
  owner : ∀ a ∈ s.attachments.inGrid g, ∃ slot row c, a.owner = .segment slot ∧
    slot < s.segmentCount ∧ t.get? slot = some row ∧
    (s.connectionsIn g)[a.connection]? = some c ∧ c.segmentId = some row.id
  once : ∀ n < (s.connectionsIn g).length, ∃! slot, n ∈ s.attachments.ofSegment slot g
  noMainBore : s.attachments.ofMainBore g = []

/-- The connections of a normal well in a grid. -/
structure Normal (s : Snapshot) (g : GridName) : Prop where
  owner : ∀ a ∈ s.attachments.inGrid g, a.owner = .mainBore
  unnamed : ∀ c ∈ s.connectionsIn g, c.segmentId = none
  noSegment : ∀ slot, s.attachments.ofSegment slot g = []
  mainBore : s.attachments.ofMainBore g = List.range (s.connectionsIn g).length

/-- A snapshot agrees with itself in a grid: the attachments are those of the
connections, in order, with the owners that the segment table gives them and with
cell numbers exactly if there are grids to take them from. -/
structure Consistent (s : Snapshot) (catalog : Option GridCatalog) (g : GridName) : Prop where
  numbered : (s.attachments.inGrid g).map (·.connection) =
    List.range (s.connectionsIn g).length
  segmented : ∀ t, s.segments = some t → s.Segmented t g
  normal : s.segments = none → s.Normal g
  cells : ∀ a ∈ s.attachments.inGrid g, a.cellIndex.isSome = catalog.isSome
  cell : ∀ grids, catalog = some grids → ∀ a ∈ s.attachments.inGrid g, ∃ c n,
    (s.connectionsIn g)[a.connection]? = some c ∧ grids.indexOf g c.cell = .ok n ∧
    a.cellIndex = some n ∧ a.activeIndex = grids.activeNumber? g n
  noCell : catalog = none → ∀ a ∈ s.attachments.inGrid g, a.activeIndex = none

theorem Tidy.segmented (hs : s.Tidy catalog) {t : SegmentTable} (ht : s.segments = some t) :
    s.Segmented t g := by
  have howner : ∀ a ∈ s.attachments.inGrid g, ∃ slot row c, a.owner = .segment slot ∧
      slot < s.segmentCount ∧ t.get? slot = some row ∧
      (s.connectionsIn g)[a.connection]? = some c ∧ c.segmentId = some row.id := by
    intro a ha
    obtain ⟨c, hc, hres⟩ := hs.of_mem ha
    have hown := (resolve_eq_ok.mp hres).2.1
    rw [ht] at hown
    obtain ⟨slot, hslot, heq⟩ := Attachments.ownerOf_table_eq_ok.mp hown
    obtain ⟨row, hrow, hid⟩ := SegmentTable.slotOf?_eq_some.mp hslot
    have hnamed := hs.named g c (List.mem_of_getElem? hc)
    rw [isSegmented, ht, Option.isSome_some] at hnamed
    obtain ⟨id, hcid⟩ := Option.isSome_iff_exists.mp hnamed
    refine ⟨slot, row, c, heq, ?_, hrow, hc, ?_⟩
    · rw [segmentCount, ht]
      exact SegmentTable.get?_lt hrow
    · rw [hid, hcid]
      rfl
  refine ⟨howner, fun n hn => ?_, hs.ownedBy_eq_nil fun a ha hmain => ?_⟩
  · obtain ⟨a, ha, han⟩ := hs.exists_of_lt hn
    obtain ⟨slot, -, -, hslot, -⟩ := howner a ha
    refine ⟨slot, hs.mem_ownedBy.mpr ⟨a, ha, hslot, han⟩, fun slot' hmem => ?_⟩
    obtain ⟨b, hb, hslot', hbn⟩ := hs.mem_ownedBy.mp hmem
    have hab := hs.eq_of_connection_eq ha hb (han.trans hbn.symm)
    rw [hab, hslot'] at hslot
    cases hslot
    rfl
  · obtain ⟨slot, -, -, hslot, -⟩ := howner a ha
    rw [hslot] at hmain
    cases hmain

theorem Tidy.normal (hs : s.Tidy catalog) (hnone : s.segments = none) : s.Normal g := by
  have howner : ∀ a ∈ s.attachments.inGrid g, a.owner = .mainBore := by
    intro a ha
    obtain ⟨c, -, hres⟩ := hs.of_mem ha
    have hown := (resolve_eq_ok.mp hres).2.1
    rw [hnone] at hown
    exact (Except.ok.inj hown).symm
  refine ⟨howner, fun c hc => ?_, fun slot => hs.ownedBy_eq_nil fun a ha hslot => ?_, ?_⟩
  · have hnamed := hs.named g c hc
    rw [isSegmented, hnone] at hnamed
    simpa using hnamed
  · rw [howner a ha] at hslot
    cases hslot
  · show s.attachments.ownedBy .mainBore g = _
    rw [hs.agree, List.filter_eq_self.mpr (by simpa using howner), hs.numbered]

theorem Tidy.consistent (hs : s.Tidy catalog) : s.Consistent catalog g where
  numbered := hs.numbered
  segmented _ ht := hs.segmented ht
  normal hnone := hs.normal hnone
  cells a ha := by
    obtain ⟨c, -, hres⟩ := hs.of_mem ha
    exact Attachments.isSome_of_cellOf (resolve_eq_ok.mp hres).2.2
  cell grids hgrids a ha := by
    obtain ⟨c, hc, hres⟩ := hs.of_mem ha
    have hcell := (resolve_eq_ok.mp hres).2.2
    rw [hgrids] at hcell
    obtain ⟨n, hn, hindex, hactive⟩ := Attachments.cellOf_catalog_eq_ok.mp hcell
    rw [hs.grid_eq g c (List.mem_of_getElem? hc)] at hn hactive
    exact ⟨c, n, hc, hn, hindex, hactive⟩
  noCell hnone a ha := by
    obtain ⟨c, -, hres⟩ := hs.of_mem ha
    have hcell := (resolve_eq_ok.mp hres).2.2
    rw [hnone] at hcell
    exact (Prod.mk.inj (Except.ok.inj hcell)).2.symm

end Snapshot

namespace Report

/-- If no two grids of a report share a name, every snapshot of a well agrees with
itself in every grid. -/
theorem reconstruct_consistent {report : Report} {reader reader' : RealsReader}
    {catalog : Option GridCatalog} {options : LoadOptions} {well : Nat} {s : Snapshot}
    (hdistinct : (report.grids.map (·.grid)).Nodup)
    (hs : report.reconstruct reader catalog options well = (.ok s, reader'))
    (g : GridName) : s.Consistent catalog g := by
  obtain ⟨records, w, topology, -, -, -, hadd⟩ := reconstruct_eq_ok.mp hs
  exact (Snapshot.tidy_bare.addGrids hdistinct (fun _ _ => rfl) hadd).consistent

/-- A segmented well with connections in the global grid and in a refinement. -/
def twoGrids : Report := ReportPlan.report {
  reportStep := 1
  simTime := ⟨0, 0⟩
  wells := [
    { name := "I", connections := [{ i := 3, j := 1, k := 1 }] },
    { name := "P"
      segmented := true
      segments := [{ outlet := 0, branch := 1 }, { outlet := 1, branch := 2, depth := 1 }]
      connections := [{ i := 1, j := 1, k := 1, segment := 2 },
        { i := 2, j := 2, k := 1, segment := 1 }] }]
  refinements := [(.refinement "R", [{
    name := "P", connections := [{ i := 2, j := 1, k := 2, segment := 2 }] }])] }

theorem reconstruct_consistent_twoGrids : ∃ reader catalog s reader',
    twoGrids.reconstruct reader (some catalog) {} 1 = (.ok s, reader') ∧
      s.segmentCount = 2 ∧ (s.connectionsIn .global).length = 2 ∧
      (s.connectionsIn (.refinement "R")).length = 1 ∧
      ∀ g, s.Consistent (some catalog) g := by
  let reader : RealsReader :=
    { header := twoGrids.header, records := twoGrids.grids.headD default }
  let catalog : GridCatalog :=
    ⟨[⟨.global, .full (.ofExtents 3 3 1), none⟩,
      ⟨.refinement "R", .full (.ofExtents 2 2 2), none⟩]⟩
  have hout : ((twoGrids.reconstruct reader (some catalog) {} 1).1.toOption.map fun s =>
      (s.segmentCount, (s.connectionsIn .global).length,
        (s.connectionsIn (.refinement "R")).length)) = some (2, 2, 1) := by decide +kernel
  rcases hs : twoGrids.reconstruct reader (some catalog) {} 1 with ⟨e | s, reader'⟩
  · rw [hs] at hout
    cases hout
  · rw [hs] at hout
    simp only [Except.toOption, Option.map_some, Option.some.injEq, Prod.mk.injEq] at hout
    exact ⟨reader, catalog, s, reader', hs, hout.1, hout.2.1, hout.2.2,
      reconstruct_consistent (by decide +kernel) hs⟩

end Report

end Wellbore
