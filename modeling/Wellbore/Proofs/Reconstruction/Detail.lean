import Wellbore.Proofs.Reconstruction.Consistent

/-!
# Less detail is the same with less in it

Switches leave out the branches of a well, or its segments with them. What is left out is
never asked for by the rest: the grids add connections without looking at branches, and a
row without its segment column still has its cell. So whatever can be reconstructed in
full can be reconstructed with less detail, and the snapshots differ in the detail alone.

Every grid is a step that both runs take. `addGrids_simulates` carries a relation between
two snapshots through all of them; for the branches the relation is an equation, for the
segments it is `FlattensTo`.
-/

namespace Wellbore

/-! ## Connections without segments -/

/-- A connection that names no segment. -/
def Connection.unnamed (c : Connection) : Connection := { c with segmentId := none }

/-- An attachment of a well that is taken for a normal one. -/
def Attachment.inMainBore (a : Attachment) : Attachment := { a with owner := .mainBore }

namespace Connection

variable {h : ReportHeader} {r : GridRecords} {well row : Nat} {segmented : Bool}
  {c : Connection} {cs : List Connection} {w : WellHeader}

theorem decode_unnamed (hc : decode h r well row segmented = .ok c) :
    decode h r well row false = .ok c.unnamed := by
  obtain ⟨ints, _, reals, i, j, k, status, direction, hints, -, hreals, hi, hj, hk, hstatus,
    hdirection, rfl⟩ := decode_eq_ok.mp hc
  exact decode_eq_ok.mpr ⟨ints, none, reals, i, j, k, status, direction, hints, rfl, hreals, hi,
    hj, hk, hstatus, hdirection, rfl⟩

theorem load_unnamed (hcs : load h r w segmented = .ok cs) :
    load h r w false = .ok (cs.map unnamed) := by
  rw [load_eq_ok] at hcs ⊢
  rw [List.forall₂_map_right_iff]
  exact hcs.imp fun n c hc => decode_unnamed hc

end Connection

namespace Attachments

variable {segments : Option SegmentTable} {catalog : Option GridCatalog} {n : Nat}
  {c : Connection} {cs : List Connection} {a : Attachment} {grid : GridName}
  {as as' bs : Attachments}

theorem resolve_unnamed (ha : resolve segments catalog n c = .ok a) :
    resolve none catalog n c.unnamed = .ok a.inMainBore := by
  obtain ⟨hn, -, hcell⟩ := resolve_eq_ok.mp ha
  exact resolve_eq_ok.mpr ⟨hn, rfl, hcell⟩

/-- The same attachments, but all of the main bore. -/
structure FlattensTo (as as' : Attachments) : Prop where
  byGrid : as'.byGrid = as.byGrid.map (List.map Attachment.inMainBore)
  agree : as'.Agree

theorem flattensTo_empty : FlattensTo {} {} := ⟨rfl, agree_empty⟩

theorem FlattensTo.add (h : as.FlattensTo as') :
    (as.add grid a).FlattensTo (as'.add grid a.inMainBore) where
  byGrid := by
    unfold Attachments.add
    dsimp only
    rw [h.byGrid]
    refine (SortedMap.map_update fun list => ?_).symm
    cases list with
    | none => rfl
    | some list => rw [Option.map_some, Option.getD_some, Option.getD_some, List.map_append]; rfl
  agree := h.agree.add

theorem FlattensTo.attachFrom (h : as.FlattensTo as')
    (hattach : Attachments.attachFrom segments catalog n cs as = (.ok (), bs)) :
    ∃ bs', Attachments.attachFrom none catalog n (cs.map Connection.unnamed) as' = (.ok (), bs') ∧
      bs.FlattensTo bs' := by
  induction cs generalizing n as as' with
  | nil =>
      cases hattach
      exact ⟨as', rfl, h⟩
  | cons c rest ih =>
      unfold Attachments.attachFrom at hattach
      rw [List.map_cons]
      unfold Attachments.attachFrom
      cases hc : resolve segments catalog n c with
      | error e =>
          rw [hc] at hattach
          cases hattach
      | ok a =>
          rw [hc] at hattach
          rw [resolve_unnamed hc]
          exact ih h.add hattach

theorem FlattensTo.attach (h : as.FlattensTo as')
    (hattach : as.attach segments cs catalog = (.ok (), bs)) :
    ∃ bs', as'.attach none (cs.map Connection.unnamed) catalog = (.ok (), bs') ∧
      bs.FlattensTo bs' :=
  h.attachFrom hattach

theorem FlattensTo.inGrid (h : as.FlattensTo as') (g : GridName) :
    as'.inGrid g = (as.inGrid g).map Attachment.inMainBore := by
  unfold Attachments.inGrid
  rw [h.byGrid, SortedMap.get?_map]
  cases as.byGrid.get? g <;> rfl

end Attachments

/-! ## Snapshots without segments -/

namespace Snapshot

/-- The same snapshot of a well that is taken for a normal one: it has no segments and no
branches, its connections name no segments, and all of them belong to the main bore. -/
structure FlattensTo (s s' : Snapshot) : Prop where
  name : s'.name = s.name
  reportStep : s'.reportStep = s.reportStep
  simTime : s'.simTime = s.simTime
  kind : s'.kind = s.kind
  isOpen : s'.isOpen = s.isOpen
  wellheads : s'.wellheads = s.wellheads
  segments : s'.segments = none
  branches : s'.branches = {}
  connections : s'.connections = s.connections.map (List.map Connection.unnamed)
  attachments : s.attachments.FlattensTo s'.attachments

namespace FlattensTo

variable {s s' : Snapshot}

theorem grids (h : s.FlattensTo s') : s'.grids = s.grids := by
  unfold Snapshot.grids
  rw [h.connections, SortedMap.keys_map]

/-- Every connection of the full snapshot is one of the main bore, in the same order. -/
theorem ofMainBore (h : s.FlattensTo s') (g : GridName) :
    s'.attachments.ofMainBore g = (s.attachments.inGrid g).map (·.connection) := by
  have hall : (s'.attachments.inGrid g).filter (fun a => a.owner = .mainBore) =
      s'.attachments.inGrid g := by
    rw [h.attachments.inGrid, List.filter_eq_self]
    exact fun a ha => by obtain ⟨b, -, rfl⟩ := List.mem_map.mp ha; rfl
  rw [Attachments.ofMainBore, h.attachments.agree, hall, h.attachments.inGrid, List.map_map]
  rfl

end FlattensTo

end Snapshot

namespace Report

variable {h : ReportHeader} {catalog : Option GridCatalog} {r : GridRecords}
  {rs : List GridRecords} {s s' t u : Snapshot} {report : Report} {reader reader' : RealsReader}
  {options options' : LoadOptions} {well : Nat} {topology : Option (SegmentTable × BranchList)}

/-- What each grid does to two snapshots alike, all grids do. -/
theorem addGrids_simulates {R : Snapshot → Snapshot → Prop}
    (hR : ∀ {r s t u}, R s t → Adds h catalog r s u → ∃ v, Adds h catalog r t v ∧ R u v)
    (hst : R s t) (hadd : addGrids h catalog rs s = .ok s') :
    ∃ t', addGrids h catalog rs t = .ok t' ∧ R s' t' := by
  induction rs generalizing s t with
  | nil =>
      rw [addGrids_nil_eq_ok] at hadd
      exact ⟨t, addGrids_nil_eq_ok.mpr rfl, hadd ▸ hst⟩
  | cons r rest ih =>
      obtain ⟨u, hu, hrest⟩ := addGrids_cons_eq_ok.mp hadd
      obtain ⟨v, hv, huv⟩ := hR hst hu
      obtain ⟨t', ht', hst'⟩ := ih huv hrest
      exact ⟨t', addGrids_cons_eq_ok.mpr ⟨v, hv, ht'⟩, hst'⟩

/-! ## Without branches -/

theorem Adds.withBranches {bs : BranchList} (hadds : Adds h catalog r s u) :
    Adds h catalog r { s with branches := bs } { u with branches := bs } := by
  cases hadds with
  | absent habsent => exact .absent habsent
  | present hfound hheader hload hattach => exact .present hfound hheader hload hattach

theorem addGrids_withBranches {bs : BranchList} (hadd : addGrids h catalog rs s = .ok s') :
    addGrids h catalog rs { s with branches := bs } = .ok { s' with branches := bs } := by
  obtain ⟨t', ht', rfl⟩ := addGrids_simulates
    (R := fun s t => t = { s with branches := bs })
    (fun hst hadds => ⟨_, hst ▸ hadds.withBranches, rfl⟩) rfl hadd
  exact ht'

theorem topologyOf_withoutBranches (hsegments : options.segments = true)
    (hbranches : options.branches = true) (hsegments' : options'.segments = true)
    (hbranches' : options'.branches = false)
    (htopology : topologyOf reader options well = (.ok topology, reader')) :
    topologyOf reader options' well =
      (.ok (topology.map fun (t, _) => (t, {})), reader') := by
  unfold topologyOf at htopology ⊢
  simp only [hsegments, hbranches, Bool.not_true, Bool.false_eq_true, if_false] at htopology
  simp only [hsegments', hbranches', Bool.not_true, Bool.not_false, Bool.false_eq_true,
    if_false, if_true]
  split at htopology
  next => cases htopology
  next =>
    cases htopology
    rfl
  next =>
    -- a table that could be decomposed was linked, which is all that is asked for now
    split at htopology
    next => cases htopology
    next =>
      split at htopology
      next => cases htopology
      next =>
        cases htopology
        rfl

/-! ## Without segments -/

theorem topologyOf_withoutSegments (hsegments : options.segments = false) :
    topologyOf reader options well = (.ok none, reader) := by
  unfold topologyOf
  rw [hsegments]
  rfl

theorem flattensTo_bare (w : WellHeader) :
    (bare h w topology).FlattensTo (bare h w none) where
  name := rfl
  reportStep := rfl
  simTime := rfl
  kind := rfl
  isOpen := rfl
  wellheads := rfl
  segments := rfl
  branches := rfl
  connections := rfl
  attachments := Attachments.flattensTo_empty

theorem Adds.flattened (hst : s.FlattensTo t) (hadds : Adds h catalog r s u) :
    ∃ v, Adds h catalog r t v ∧ u.FlattensTo v := by
  cases hadds with
  | absent habsent => exact ⟨t, .absent (hst.name ▸ habsent), hst⟩
  | present hfound hheader hload hattach =>
      obtain ⟨as, has, hflat⟩ := hst.attachments.attach hattach
      -- without segments the rows are read as those of a normal well
      have hnormal : t.isSegmented = false := by
        rw [Snapshot.isSegmented, hst.segments]
        rfl
      rw [← hst.segments] at has
      refine ⟨_, .present (hst.name ▸ hfound) hheader
        (hnormal ▸ Connection.load_unnamed hload) has, ?_⟩
      exact { hst with
        wellheads := by
          unfold Snapshot.addGrid
          dsimp only
          rw [hst.wellheads]
        connections := by
          unfold Snapshot.addGrid
          dsimp only
          rw [hst.connections, SortedMap.map_insert]
        attachments := hflat }

theorem addGrids_flattened (hst : s.FlattensTo t) (hadd : addGrids h catalog rs s = .ok s') :
    ∃ t', addGrids h catalog rs t = .ok t' ∧ s'.FlattensTo t' :=
  addGrids_simulates Adds.flattened hst hadd

/-! ## The three settings -/

/-- A well that can be reconstructed in full can be reconstructed without branches, as the
same snapshot but for its branches, and without segments, as the same snapshot
flattened. -/
theorem reconstruct_lessDetail (hsegments : options.segments = true)
    (hbranches : options.branches = true)
    (hs : (report.reconstruct reader catalog options well).1 = .ok s) (options' : LoadOptions) :
    (options'.segments = true → options'.branches = false →
      (report.reconstruct reader catalog options' well).1 = .ok { s with branches := {} }) ∧
    (options'.segments = false → ∃ s',
      (report.reconstruct reader catalog options' well).1 = .ok s' ∧ s.FlattensTo s') := by
  obtain ⟨g, w, topology, hg, hw, htopology, hadd⟩ := reconstruct_eq_ok.mp (Prod.ext hs rfl)
  constructor
  · intro hsegments' hbranches'
    have htopology' := topologyOf_withoutBranches hsegments hbranches hsegments' hbranches'
      htopology
    have hbare : bare report.header w (topology.map fun (t, _) => (t, {})) =
        { bare report.header w topology with branches := {} } := by
      cases topology <;> rfl
    have hadd' : addGrids report.header catalog report.grids
        (bare report.header w (topology.map fun (t, _) => (t, {}))) =
          .ok { s with branches := {} } := by
      rw [hbare]
      exact addGrids_withBranches hadd
    exact congrArg Prod.fst (reconstruct_eq_ok.mpr ⟨g, w, _, hg, hw, htopology', hadd'⟩)
  · intro hsegments'
    obtain ⟨s', hadd', hflat⟩ := addGrids_flattened (flattensTo_bare w) hadd
    refine ⟨s', ?_, hflat⟩
    exact congrArg Prod.fst (reconstruct_eq_ok.mpr
      ⟨g, w, none, hg, hw, topologyOf_withoutSegments hsegments', hadd'⟩)

theorem reconstruct_lessDetail_twoGrids : ∃ reader catalog s s',
    (twoGrids.reconstruct reader (some catalog) {} 1).1 = .ok s ∧ s.branches.length = 2 ∧
      (s.connectionsIn .global).length = 2 ∧
      (twoGrids.reconstruct reader (some catalog) { branches := false } 1).1 =
        .ok { s with branches := {} } ∧
      (twoGrids.reconstruct reader (some catalog) { segments := false } 1).1 = .ok s' ∧
      s.FlattensTo s' := by
  let reader : RealsReader :=
    { header := twoGrids.header, records := twoGrids.grids.headD default }
  let catalog : GridCatalog :=
    ⟨[⟨.global, .full (.ofExtents 3 3 1), none⟩,
      ⟨.refinement "R", .full (.ofExtents 2 2 2), none⟩]⟩
  have hout : ((twoGrids.reconstruct reader (some catalog) {} 1).1.toOption.map fun s =>
      (s.branches.length, (s.connectionsIn .global).length)) = some (2, 2) := by decide +kernel
  cases hs : (twoGrids.reconstruct reader (some catalog) {} 1).1 with
  | error e =>
      rw [hs] at hout
      cases hout
  | ok s =>
      rw [hs] at hout
      simp only [Except.toOption, Option.map_some, Option.some.injEq, Prod.mk.injEq] at hout
      obtain ⟨s', hs', hflat⟩ :=
        (reconstruct_lessDetail rfl rfl hs { segments := false }).2 rfl
      exact ⟨reader, catalog, s, s', hs, hout.1, hout.2,
        (reconstruct_lessDetail rfl rfl hs { branches := false }).1 rfl rfl, hs', hflat⟩

end Report

end Wellbore
