import Wellbore.Proofs.Reconstruction.Separation

/-!
# Which wells a snapshot is put together from

A well of the global grid is reconstructed by its number. Each grid, the global one not
excepted, is then asked for the well by its name, and the first well of the name answers.
Names need not be distinct. So a snapshot may tell of two wells of the global grid: the
header and the segments are those of the number that was asked for, the wellhead and the
connections those of the first well of the same name. They are one well exactly if no
well before it has the name.
-/

namespace Wellbore

variable {h : ReportHeader} {catalog : Option GridCatalog} {r r' g : GridRecords}
  {rs : List GridRecords} {s s' : Snapshot} {name : String} {well first n : Nat}

/-! ## The first well of a name -/

namespace GridRecords

/-- A well is the first of its name or comes after it. -/
theorem exists_findWell? (hname : r.wellNames[n]? = some name) :
    ∃ first ≤ n, r.findWell? name = some first ∧
      (first = n ↔ ∀ k < n, r.wellNames[k]? ≠ some name) := by
  cases hfound : r.findWell? name with
  | none =>
      have hnone := List.findIdx?_eq_none_iff.mp hfound name (List.mem_of_getElem? hname)
      rw [beq_self_eq_true] at hnone
      cases hnone
  | some first =>
      obtain ⟨hfirst, hbefore⟩ := findWell?_eq_some.mp hfound
      have hle : first ≤ n := by
        by_contra hlt
        exact hbefore n (Nat.lt_of_not_le hlt) hname
      refine ⟨first, hle, rfl, fun heq => heq ▸ hbefore, fun hnone => ?_⟩
      by_contra hne
      exact hnone first (Nat.lt_of_le_of_ne hle hne) hfirst

end GridRecords

/-! ## What a grid adds -/

namespace Snapshot

/-- The snapshot has the header of a well, and its segments and branches. -/
structure HeadedBy (s : Snapshot) (h : ReportHeader) (g : GridRecords) (well : Nat)
    (topology : Option (SegmentTable × BranchList)) : Prop where
  header : ∃ w, WellHeader.decode h g well = .ok w ∧ s.name = w.name ∧ s.kind = w.kind ∧
    s.isOpen = w.isOpen
  segments : s.segments = topology.map (·.1)
  branches : s.branches = (topology.map (·.2)).getD {}

/-- What the snapshot has of a grid is what the rows of a well say there. -/
def TakenFrom (s : Snapshot) (h : ReportHeader) (r : GridRecords) (well : Nat) : Prop :=
  ∃ w cs, WellHeader.decode h r well = .ok w ∧ Connection.load h r w s.isSegmented = .ok cs ∧
    s.wellheads.get? r.grid = some w.wellhead ∧ s.connections.get? r.grid = some cs

end Snapshot

namespace Report

theorem takenFrom_of_adds (hfound : r.findWell? s.name = some well)
    (hadds : Adds h catalog r s s') : s'.TakenFrom h r well := by
  cases hadds with
  | absent habsent =>
      rw [habsent] at hfound
      cases hfound
  | present hfound' hheader hload hattach =>
      rw [hfound, Option.some.injEq] at hfound'
      rw [← hfound'] at hheader
      exact ⟨_, _, hheader, hload, SortedMap.get?_insert_self, SortedMap.get?_insert_self⟩

theorem takenFrom_adds (hs : s.TakenFrom h r well) (hadds : Adds h catalog r' s s')
    (hne : r'.grid ≠ r.grid) : s'.TakenFrom h r well := by
  cases hadds with
  | absent => exact hs
  | present hfound hheader hload hattach =>
      obtain ⟨w, cs, hw, hcs, hwellhead, hconnections⟩ := hs
      exact ⟨w, cs, hw, hcs, (SortedMap.get?_insert_of_ne hne.symm).trans hwellhead,
        (SortedMap.get?_insert_of_ne hne.symm).trans hconnections⟩

theorem takenFrom_addGrids_of_ne (hs : s.TakenFrom h r well)
    (hne : ∀ r' ∈ rs, r'.grid ≠ r.grid) (hadd : addGrids h catalog rs s = .ok s') :
    s'.TakenFrom h r well := by
  induction rs generalizing s with
  | nil =>
      rw [addGrids_nil_eq_ok.mp hadd]
      exact hs
  | cons r' rest ih =>
      obtain ⟨u, hadds, hrest⟩ := addGrids_cons_eq_ok.mp hadd
      obtain ⟨hne', hne⟩ := List.forall_mem_cons.mp hne
      exact ih (takenFrom_adds hs hadds hne') hne hrest

/-- What a snapshot has of a grid that is there once is taken from the first well of its
name. -/
theorem takenFrom_of_addGrids (honce : rs.filter (fun r' => r'.grid = r.grid) = [r])
    (hfound : r.findWell? s.name = some well) (hadd : addGrids h catalog rs s = .ok s') :
    s'.TakenFrom h r well := by
  induction rs generalizing s with
  | nil => cases honce
  | cons r' rest ih =>
      obtain ⟨u, hadds, hrest⟩ := addGrids_cons_eq_ok.mp hadd
      rw [List.filter_cons] at honce
      split at honce
      · obtain ⟨rfl, hnone⟩ := List.cons.inj honce
        refine takenFrom_addGrids_of_ne (takenFrom_of_adds hfound hadds) (fun r'' hr'' => ?_) hrest
        simpa using List.filter_eq_nil_iff.mp hnone r'' hr''
      · have hname : u.name = s.name := by cases hadds <;> rfl
        rw [← hname] at hfound
        exact ih honce hfound hrest

/-! ## A snapshot -/

/-- The snapshot of a well has the header and the segments of that well, and of the global
grid, if it is there once, the wellhead and the connections of the first well of the same
name. -/
theorem reconstruct_namesakes {report : Report} {held : SegmentReals} {reader : RealsReader}
    {options : LoadOptions}
    (honce : report.grids.filter (fun r => r.grid = .global) = [g])
    (hs : report.reconstruct ⟨report.header, g, held⟩ catalog options well = (.ok s, reader)) :
    (∃ topology, (topologyOf ⟨report.header, g, held⟩ options well).1 = .ok topology ∧
      s.HeadedBy report.header g well topology) ∧
    ∃ first ≤ well, g.findWell? s.name = some first ∧ s.TakenFrom report.header g first ∧
      (first = well ↔ ∀ k < well, g.wellNames[k]? ≠ some s.name) := by
  have hglobal : report.globalGrid = .ok g := by
    rw [globalGrid_eq_ok, ← List.head?_filter, honce]
    rfl
  obtain ⟨g', w, topology, hg', hw, htopology, hadd⟩ := reconstruct_eq_ok.mp hs
  rw [hglobal, Except.ok.injEq] at hg'
  subst hg'
  have hkept := addGrids_keeps (f := fun s => (s.name, s.kind, s.isOpen, s.segments, s.branches))
    (fun hadds => by cases hadds <;> rfl) hadd
  simp only [Prod.mk.injEq] at hkept
  obtain ⟨hname, hkind, hopen, hsegments, hbranches⟩ := hkept
  refine ⟨⟨topology, by rw [htopology], ⟨⟨w, hw, hname, hkind, hopen⟩, hsegments, hbranches⟩⟩, ?_⟩
  obtain ⟨first, hle, hfound, hiff⟩ := GridRecords.exists_findWell? (WellHeader.name_of_decode hw)
  have hgrid : g.grid = .global := by
    have hmem : g ∈ report.grids.filter (fun r => r.grid = .global) := by
      rw [honce]
      exact List.mem_singleton_self g
    exact of_decide_eq_true (List.mem_filter.mp hmem).2
  rw [← hgrid] at honce
  have hbare : g.findWell? (bare report.header w topology).name = some first := hfound
  have htaken := takenFrom_of_addGrids honce hbare hadd
  have hname : s.name = w.name := hname
  rw [← hname] at hfound hiff
  exact ⟨first, hle, hfound, htaken, hiff⟩

/-- Two wells of one name: a producer, and an injector with a segment. -/
def twins : Report := ReportPlan.report {
  reportStep := 1
  simTime := ⟨0, 0⟩
  wells := [
    { name := "P", connections := [{ i := 1, j := 1, k := 1, segment := 1 }] },
    { name := "P"
      headI := 4
      kind := 2
      segmented := true
      segments := [{ outlet := 0, branch := 1 }]
      connections := [{ i := 3, j := 2, k := 1, segment := 1 },
        { i := 4, j := 2, k := 1, segment := 1 }] }] }

theorem grids_twins :
    twins.grids.filter (fun r => r.grid = .global) = [twins.grids.headD default] := by
  have hgrids : twins.grids.map (·.grid) = [.global] := by decide +kernel
  obtain ⟨g, hg, hglobal⟩ := List.map_eq_singleton_iff.mp hgrids
  rw [hg, List.headD_cons, List.filter_cons_of_pos (by simp [hglobal]), List.filter_nil]

theorem reconstruct_namesakes_twins : ∃ g s reader,
    twins.grids.filter (fun r => r.grid = .global) = [g] ∧
    twins.reconstruct (twins.realsReader g) none {} 1 = (.ok s, reader) ∧
    (∃ topology, (topologyOf (twins.realsReader g) {} 1).1 = .ok topology ∧
      s.HeadedBy twins.header g 1 topology) ∧
    ∃ first ≤ 1, g.findWell? s.name = some first ∧ s.TakenFrom twins.header g first ∧
      (first = 1 ↔ ∀ k < 1, g.wellNames[k]? ≠ some s.name) := by
  have hout : (twins.reconstruct (twins.realsReader (twins.grids.headD default)) none {}
      1).1.toOption.isSome = true := by decide +kernel
  rcases hs : twins.reconstruct (twins.realsReader (twins.grids.headD default)) none {} 1 with
    ⟨e | s, reader⟩
  · rw [hs] at hout
    cases hout
  · exact ⟨_, s, reader, grids_twins, hs, reconstruct_namesakes grids_twins hs⟩

/-- The wellhead of the second twin is not in its snapshot, and neither are its two
connections. -/
theorem reconstruct_twins_mixed : ∃ g w s reader,
    twins.grids.filter (fun r => r.grid = .global) = [g] ∧
    WellHeader.decode twins.header g 1 = .ok w ∧
    twins.reconstruct (twins.realsReader g) none {} 1 = (.ok s, reader) ∧
    s.kind = w.kind ∧ s.wellheads.get? .global ≠ some w.wellhead ∧
    (s.connections.get? .global).map List.length ≠ some w.connections := by
  have hheader : (WellHeader.decode twins.header (twins.grids.headD default) 1).toOption.map
      (fun w => (w.kind, w.wellhead, w.connections)) =
        some (.oilInjector, ⟨3, 0, 0⟩, 2) := by decide +kernel
  have hout : (twins.reconstruct (twins.realsReader (twins.grids.headD default)) none {}
      1).1.toOption.map (fun s => (s.kind, s.wellheads.get? .global,
        (s.connections.get? .global).map List.length)) =
          some (.oilInjector, some ⟨0, 0, 0⟩, some 1) := by decide +kernel
  rcases hw : WellHeader.decode twins.header (twins.grids.headD default) 1 with e | w
  · rw [hw] at hheader
    cases hheader
  rcases hs : twins.reconstruct (twins.realsReader (twins.grids.headD default)) none {} 1 with
    ⟨e | s, reader⟩
  · rw [hs] at hout
    cases hout
  rw [hw] at hheader
  rw [hs] at hout
  simp only [Except.toOption, Option.map_some, Option.some.injEq, Prod.mk.injEq] at hheader hout
  obtain ⟨hkind, hwellhead, hconnections⟩ := hheader
  obtain ⟨hkind', hwellhead', hconnections'⟩ := hout
  refine ⟨_, w, s, reader, grids_twins, hw, hs, hkind'.trans hkind.symm, ?_, ?_⟩
  · rw [hwellhead, hwellhead']
    decide
  · rw [hconnections, hconnections']
    decide

end Report

end Wellbore
