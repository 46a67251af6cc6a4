import Wellbore.Reconstruction
import Wellbore.Proofs.Connection.Attachments
import Wellbore.Proofs.Connection.Loading

/-!
# The stages of a reconstruction

A reconstruction that ends well has passed every stage: the header and the
topology of the well come from the global grid, and then each grid in turn adds
what it knows. `Adds` says what a single grid can do to a snapshot, so that what
holds of all grids together is an induction over their list.
-/

namespace Wellbore

namespace Report

variable {h : ReportHeader} {catalog : Option GridCatalog} {r : GridRecords}
  {rest : List GridRecords} {s s' : Snapshot}

/-- What one grid does to a snapshot; nothing if the well is not in its list. -/
inductive Adds (h : ReportHeader) (catalog : Option GridCatalog) (r : GridRecords)
    (s : Snapshot) : Snapshot → Prop where
  | absent (habsent : r.findWell? s.name = none) : Adds h catalog r s s
  | present {well : Nat} {w : WellHeader} {cs : List Connection} {as : Attachments}
      (hfound : r.findWell? s.name = some well)
      (hheader : WellHeader.decode h r well = .ok w)
      (hload : Connection.load h r w s.isSegmented = .ok cs)
      (hattach : s.attachments.attach s.segments cs catalog = (.ok (), as)) :
      Adds h catalog r s { s.addGrid r.grid w.wellhead cs with attachments := as }

theorem addGrids_nil_eq_ok : addGrids h catalog [] s = .ok s' ↔ s' = s := by
  unfold addGrids
  rw [Except.ok.injEq, eq_comm]

theorem addGrids_cons_eq_ok : addGrids h catalog (r :: rest) s = .ok s' ↔
    ∃ u, Adds h catalog r s u ∧ addGrids h catalog rest u = .ok s' := by
  constructor
  · intro hadd
    unfold addGrids at hadd
    split at hadd
    next habsent => exact ⟨s, .absent habsent, hadd⟩
    next well hfound =>
      split at hadd
      next => cases hadd
      next w hheader =>
        split at hadd
        next => cases hadd
        next cs hload =>
          split at hadd
          next => cases hadd
          next as hattach => exact ⟨_, .present hfound hheader hload hattach, hadd⟩
  · rintro ⟨u, hadds, hrest⟩
    unfold addGrids
    cases hadds with
    | absent habsent =>
        rw [habsent]
        exact hrest
    | present hfound hheader hload hattach =>
        simp only [hfound, hheader, hload, hattach]
        exact hrest

/-- What no single grid changes is the same after all of them. -/
theorem addGrids_keeps {β : Type} {f : Snapshot → β} {rs : List GridRecords}
    (hf : ∀ {r s s'}, Adds h catalog r s s' → f s' = f s)
    (hadd : addGrids h catalog rs s = .ok s') : f s' = f s := by
  induction rs generalizing s with
  | nil => rw [addGrids_nil_eq_ok.mp hadd]
  | cons r rest ih =>
      obtain ⟨u, hu, hrest⟩ := addGrids_cons_eq_ok.mp hadd
      rw [ih hrest, hf hu]

theorem name_of_addGrids {rs : List GridRecords}
    (hadd : addGrids h catalog rs s = .ok s') : s'.name = s.name :=
  addGrids_keeps (f := Snapshot.name) (fun hadds => by cases hadds <;> rfl) hadd

theorem simTime_of_addGrids {rs : List GridRecords}
    (hadd : addGrids h catalog rs s = .ok s') : s'.simTime = s.simTime :=
  addGrids_keeps (f := Snapshot.simTime) (fun hadds => by cases hadds <;> rfl) hadd

/-- The snapshot before any grid has added its connections. -/
def bare (h : ReportHeader) (w : WellHeader) (topology : Option (SegmentTable × BranchList)) :
    Snapshot :=
  { Snapshot.ofHeader h w with
    segments := topology.map (·.1)
    branches := (topology.map (·.2)).getD {} }

theorem reconstruct_eq_ok {report : Report} {reader reader' : RealsReader}
    {options : LoadOptions} {well : Nat} :
    report.reconstruct reader catalog options well = (.ok s, reader') ↔
      ∃ g w topology, report.globalGrid = .ok g ∧
        WellHeader.decode report.header g well = .ok w ∧
        topologyOf reader options well = (.ok topology, reader') ∧
        addGrids report.header catalog report.grids (bare report.header w topology) = .ok s := by
  unfold reconstruct
  constructor
  · intro hs
    split at hs
    next => cases hs
    next w hw =>
      obtain ⟨g, hg, hheader⟩ := bind_eq_ok.mp hw
      split at hs
      next => cases hs
      next topology reader'' htopology =>
        obtain ⟨hadd, hreader⟩ := Prod.mk.inj hs
        subst hreader
        exact ⟨g, w, topology, hg, hheader, htopology, hadd⟩
  · rintro ⟨g, w, topology, hg, hheader, htopology, hadd⟩
    have hw : (report.globalGrid.bind fun g => WellHeader.decode report.header g well) = .ok w :=
      bind_eq_ok.mpr ⟨g, hg, hheader⟩
    rw [hw]
    dsimp only
    rw [htopology]
    exact Prod.ext hadd rfl

end Report

end Wellbore
