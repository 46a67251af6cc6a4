import Wellbore.Proofs.Branch.Partition
import Wellbore.Proofs.Connection.Calls
import Wellbore.Proofs.Segment.Calls

/-!
# No connection is lost between the branches

The connections of a branch are picked from the list of their grid, those of a segment
are kept by owner, and the chains of a branch are found by following links. The three
agree because every attachment has a segment of the table for its owner, and because the
chains divide the segments in use: grouped by owner, the attachments of one branch number
fall on the members of its chains, and grouped by branch number, those of a grid fall on
the numbers of the chains and on the one number that is not in use.
-/

namespace Wellbore

namespace Attachments

variable {as : Attachments} {g : GridName} {a : Attachment} {t : SegmentTable} {id : Int32}
  {slot : Slot} {c : AttachCall} {bs : BranchList}

/-! ## Whose attachments they are -/

/-- Every attachment belongs to a segment of the table. -/
def Within (as : Attachments) (t : SegmentTable) : Prop :=
  ∀ g, ∀ a ∈ as.inGrid g, ∃ slot s, a.owner = .segment slot ∧ t.get? slot = some s

theorem within_empty (t : SegmentTable) : Within {} t :=
  fun _ _ ha => absurd ha List.not_mem_nil

theorem owner_of_files {e : GridName × Attachment} {catalog : Option GridCatalog}
    {c : Connection × Nat} (he : Files (some t) catalog c e) :
    ∃ slot s, e.2.owner = .segment slot ∧ t.get? slot = some s := by
  obtain ⟨slot, hslot, howner⟩ := ownerOf_table_eq_ok.mp (resolve_eq_ok.mp he.2).2.1
  obtain ⟨s, hs, -⟩ := SegmentTable.slotOf?_eq_some.mp hslot
  exact ⟨slot, s, howner, hs⟩

theorem Within.after (h : as.Within t) (hc : c.segments = some t) : (as.after c).Within t := by
  obtain ⟨done, rest, filed, -, hfiled, has, -⟩ :=
    attachFrom_cases c.segments c.catalog 0 c.connections as
  rw [hc] at hfiled
  intro g a ha
  unfold Attachments.after attach at ha
  rw [has, inGrid_addAll, List.mem_append, List.mem_map] at ha
  rcases ha with ha | ⟨e, he, rfl⟩
  · exact h g a ha
  · obtain ⟨c, -, hc⟩ := exists_mem_of_forall₂ hfiled (List.mem_filter.mp he).1
    exact owner_of_files hc

theorem within_ofCalls {calls : List AttachCall} (hcalls : ∀ c ∈ calls, c.segments = some t) :
    (ofCalls calls).Within t := by
  induction calls using List.reverseRecOn with
  | nil => exact within_empty t
  | append_singleton calls c ih =>
      rw [ofCalls_append]
      exact (ih fun c hc => hcalls c (List.mem_append_left _ hc)).after (hcalls c (by simp))

/-- The branch number of the segment that an attachment belongs to. -/
def branchOf? (t : SegmentTable) (a : Attachment) : Option Int32 :=
  match a.owner with
  | .segment slot => (t.get? slot).map (·.branchId)
  | .mainBore => none

theorem branchOf?_eq_some : branchOf? t a = some id ↔
    ∃ slot s, a.owner = .segment slot ∧ t.get? slot = some s ∧ s.branchId = id := by
  unfold branchOf?
  cases a.owner with
  | segment slot => simp
  | mainBore => simp

theorem ofBranch_eq : as.ofBranch t id g =
    ((as.inGrid g).filter fun a => branchOf? t a = some id).map (·.connection) := by
  unfold ofBranch
  rw [← List.filterMap_eq_map, List.filterMap_filter]
  refine List.filterMap_congr fun a _ => ?_
  unfold branchOf?
  cases a.owner with
  | mainBore => rfl
  | segment slot => simp [Option.any_eq_true]

/-! ## By segment -/

theorem ofSegment_eq (hagree : as.Agree) {s : Segment} (hs : t.get? slot = some s) :
    as.ofSegment slot g =
      (((as.inGrid g).filter fun a => branchOf? t a = some s.branchId).filter
        fun a => a.owner = .segment slot).map (·.connection) := by
  rw [ofSegment, hagree, List.filter_filter]
  refine congrArg _ (List.filter_congr fun a _ => ?_)
  by_cases howner : a.owner = .segment slot
  · simp [howner, branchOf?_eq_some.mpr ⟨slot, s, howner, hs, rfl⟩]
  · simp [howner]

theorem ofBranch_perm (hagree : as.Agree) (hdivided : t.DividedBy bs.branches)
    (hid : id ≠ inactiveBranch) (g : GridName) :
    (as.ofBranch t id g).Perm
      ((bs.chains id).flatMap fun b => (b.walk t).flatMap fun slot => as.ofSegment slot g) := by
  let members := (bs.chains id).flatMap fun b => b.walk t
  let picked := (as.inGrid g).filter fun a => branchOf? t a = some id
  -- the members are owners listed once, and each picked attachment has one of them
  have hnodup : (members.map Owner.segment).Nodup :=
    (hdivided.nodup_chains id).map fun _ _ h => Owner.segment.inj h
  have howned : ∀ a ∈ picked, a.owner ∈ members.map Owner.segment := by
    intro a ha
    obtain ⟨slot, s, howner, hs⟩ :=
      branchOf?_eq_some.mp (of_decide_eq_true (List.mem_filter.mp ha).2)
    rw [howner]
    exact List.mem_map_of_mem ((hdivided.mem_chains hid).mpr ⟨s, hs⟩)
  have hsegment : ∀ slot ∈ members,
      (picked.filter fun a => a.owner = .segment slot).map (·.connection) =
        as.ofSegment slot g := by
    intro slot hslot
    obtain ⟨s, hs, rfl⟩ := (hdivided.mem_chains hid).mp hslot
    exact (ofSegment_eq hagree hs).symm
  rw [ofBranch_eq, ← List.flatMap_assoc]
  refine ((perm_flatMap_filter hnodup howned).symm.map _).trans (.of_eq ?_)
  rw [List.map_flatMap, List.flatMap_map]
  exact List.flatMap_congr hsegment

/-! ## By branch number -/

theorem sum_length_ofBranch (hwithin : as.Within t) (hdivided : t.DividedBy bs.branches)
    (g : GridName) : (as.inGrid g).length =
      (bs.numbers.map fun id => (as.ofBranch t id g).length).sum +
        (as.ofBranch t inactiveBranch g).length := by
  -- every attachment has a number, if only the one that is not in use
  have hnumbered : ∀ a ∈ as.inGrid g,
      branchOf? t a ∈ (bs.numbers ++ [inactiveBranch]).map some := by
    intro a ha
    obtain ⟨slot, s, howner, hs⟩ := hwithin g a ha
    rw [branchOf?_eq_some.mpr ⟨slot, s, howner, hs, rfl⟩]
    exact List.mem_map_of_mem (hdivided.mem_numbers hs)
  have hnodup := hdivided.nodup_numbers.map (Option.some_injective _)
  rw [← sum_length_filter hnodup hnumbered]
  simp only [ofBranch_eq, List.length_map, List.map_append, List.map_map, List.sum_append]
  simp [Function.comp_def]

/-! ## Any table and any run of calls -/

/-- Whatever was attached to a table that could be linked and decomposed, a branch in use
has the connections of the members of its chains, and all branches together, with what is
not in use, have as many as the grid. -/
theorem ofBranch_conserved {tableCalls : List TableCall} {n : Nat}
    (hlink : (SegmentTable.ofCalls tableCalls).linkAll = (.ok n, t))
    (hbs : t.decompose = .ok bs) {calls : List AttachCall}
    (hcalls : ∀ c ∈ calls, c.segments = some t) (g : GridName) :
    (∀ id, id ≠ inactiveBranch →
      ((ofCalls calls).ofBranch t id g).Perm ((bs.chains id).flatMap fun b =>
        (b.walk t).flatMap fun slot => (ofCalls calls).ofSegment slot g)) ∧
    (∀ id, id ≠ inactiveBranch → bs.chains id = [] → (ofCalls calls).ofBranch t id g = []) ∧
    ((ofCalls calls).inGrid g).length =
      (bs.numbers.map fun id => ((ofCalls calls).ofBranch t id g).length).sum +
        ((ofCalls calls).ofBranch t inactiveBranch g).length := by
  have hforest := SegmentTable.forest_of_linkAll (SegmentTable.sound_ofCalls tableCalls) hlink
  have hdivided := hforest.dividedBy hbs
  have hperm := fun id (hid : id ≠ inactiveBranch) =>
    ofBranch_perm (agree_ofCalls calls) hdivided hid g
  refine ⟨hperm, fun id hid hnone => ?_, sum_length_ofBranch (within_ofCalls hcalls) hdivided g⟩
  have hempty := hperm id hid
  rw [hnone, List.flatMap_nil] at hempty
  exact hempty.eq_nil

/-- Branch 1 enters the main bore twice, branch 2 drains into its second chain, and the
last segment is not in use. -/
def twoChains : List TableCall :=
  [.insert ⟨1, 0, 1, {}⟩, .insert ⟨2, 1, 1, {}⟩, .insert ⟨3, 0, 1, {}⟩, .insert ⟨4, 3, 2, {}⟩,
    .insert ⟨5, 0, 0, {}⟩]

/-- Two calls, of which the first one stops at a segment that is not there. -/
def stoppedCalls (t : SegmentTable) : List AttachCall :=
  let drainingInto (id : Int32) : Connection :=
    { grid := .global, cell := default, isOpen := true, segmentId := some id }
  [⟨some t, [3, 5, 1, 9, 2].map drainingInto, none⟩, ⟨some t, [4, 2].map drainingInto, none⟩]

theorem ofBranch_conserved_twoChains : ∃ t bs,
    (SegmentTable.ofCalls twoChains).linkAll = (.ok 2, t) ∧ t.decompose = .ok bs ∧
    (bs.chains 1).length = 2 ∧ (ofCalls (stoppedCalls t)).ofBranch t 1 .global = [0, 2, 1] ∧
    ((ofCalls (stoppedCalls t)).ofBranch t 1 .global).Perm ((bs.chains 1).flatMap fun b =>
      (b.walk t).flatMap fun slot => (ofCalls (stoppedCalls t)).ofSegment slot .global) ∧
    ((ofCalls (stoppedCalls t)).inGrid .global).length =
      (bs.numbers.map fun id =>
        ((ofCalls (stoppedCalls t)).ofBranch t id .global).length).sum +
          ((ofCalls (stoppedCalls t)).ofBranch t inactiveBranch .global).length := by
  have hlink : (SegmentTable.ofCalls twoChains).linkAll =
      (.ok 2, (SegmentTable.ofCalls twoChains).linkAll.2) :=
    SegmentTable.linkAll_eq (by decide +kernel)
  have hbs : (SegmentTable.ofCalls twoChains).linkAll.2.decompose =
      .ok (.ofBranches [⟨1, 1⟩, ⟨1, 2⟩, ⟨2, 3⟩]) := by decide +kernel
  have hcalls : ∀ c ∈ stoppedCalls (SegmentTable.ofCalls twoChains).linkAll.2,
      c.segments = some (SegmentTable.ofCalls twoChains).linkAll.2 := by simp [stoppedCalls]
  obtain ⟨hperm, -, hsum⟩ := ofBranch_conserved hlink hbs hcalls .global
  exact ⟨_, _, hlink, hbs, rfl, by decide +kernel, hperm 1 (by decide), hsum⟩

end Attachments

end Wellbore
