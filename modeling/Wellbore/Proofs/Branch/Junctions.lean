import Wellbore.Proofs.Branch.Partition
import Wellbore.Proofs.Segment.Calls

/-!
# Chains that drain into chains

The walk of a branch stops where the links leave the branch, the path to the wellhead goes on.
Both are cut off after as many steps as the table has rows, which in a forest is never too
soon. So the path is the walk, and then the way that the junction has ahead of it.

The junction lies on another chain, on one only, and from there things go on in the same way.
What falls from chain to chain is not the way that a chain has to the wellhead, for the chain
that is drained into may be entered near its end and start far up. It is the way that is left
when the chain has been passed (`beyond`): the next chain takes up a part of it, the junction
at least.
-/

namespace Wellbore

namespace Branch

open SegmentTable (Forest DividedBy outletChain_of_lt)
open Slot (EndsIn Leads)

variable {t : SegmentTable} {bs : BranchList} {b b' : Branch} {j : Slot}

/-- The chain of `b` drains into a member of the chain of `b'`. -/
def DrainsInto (t : SegmentTable) (bs : BranchList) (b b' : Branch) : Prop :=
  b ∈ bs.branches ∧ b' ∈ bs.branches ∧ ∃ j, b.junction? t = some j ∧ j ∈ b'.walk t

/-- How many segments the way to the wellhead has after the chain. -/
def beyond (b : Branch) (t : SegmentTable) : Nat :=
  ((b.junction? t).map fun j => (t.outletChain j).length).getD 0

/-- How a chain leads to the wellhead, by itself and by way of other chains. -/
structure LeadsOut (t : SegmentTable) (bs : BranchList) (b : Branch) : Prop where
  junction : ∀ j, b.junction? t = some j ↔
    ∃ z, (b.walk t).getLast? = some z ∧ t.outletSlot? z = some j
  meets : ∀ j, b.junction? t = some j →
    (∃ o, t.get? j = some o ∧ o.active = true ∧ o.branchId ≠ b.branchId) ∧
    j ∉ b.walk t ∧ ∃! b', b' ∈ bs.branches ∧ j ∈ b'.walk t
  path_eq : b.path t = b.walk t ++ ((b.junction? t).map t.outletChain).getD []
  path_nodup : (b.path t).Nodup
  path_active : ∀ a ∈ b.path t, ∃ s, t.get? a = some s ∧ s.active = true
  path_end : ∃ z s, (b.path t).getLast? = some z ∧ t.get? z = some s ∧
    s.outletId = wellheadOutlet ∧ s.outlet = none
  noReturn : ∀ route : List Branch, route.head? = some b → route.IsChain (DrainsInto t bs) →
    route.Nodup
  arrives : ∃ route : List Branch, route.head? = some b ∧ route.IsChain (DrainsInto t bs) ∧
    ∃ last, route.getLast? = some last ∧ last.junction? t = none
  /-- More room than there are rows would change neither the walk nor the path. -/
  uncut : ∀ n, t.size ≤ n → Slot.walk (t.nextInBranch? b.branchId) n b.start = b.walk t ∧
    Slot.walk t.outletSlot? n b.start = b.path t

/-! ## Where a chain ends -/

theorem junction?_eq_some : b.junction? t = some j ↔ ∃ z o, (b.walk t).getLast? = some z ∧
    t.outletSlot? z = some j ∧ t.get? j = some o ∧ o.branchId ≠ b.branchId := by
  unfold junction?
  simp only [bind, Option.bind_eq_some_iff]
  constructor
  · rintro ⟨z, hz, o, ho, s, hs, hj⟩
    split at hj
    next => cases hj
    next hne =>
      rw [Option.some.injEq] at hj
      rw [← hj]
      exact ⟨z, s, hz, ho, hs, fun heq => hne (beq_iff_eq.mpr heq)⟩
  · rintro ⟨z, s, hz, ho, hs, hne⟩
    exact ⟨z, hz, j, ho, s, hs, if_neg fun heq => hne (beq_iff_eq.mp heq)⟩

/-- A chain ends where the next segment is of another branch, or where there is none. -/
theorem exists_end (hf : t.Forest) (hb : b.start < t.size) :
    ∃ z, (b.walk t).getLast? = some z ∧ t.nextInBranch? b.branchId z = none ∧
      b.junction? t = t.outletSlot? z ∧
      b.path t = b.walk t ++ ((b.junction? t).map t.outletChain).getD [] := by
  obtain ⟨k, hlt, hk⟩ := hf.endsIn_lt hb
  obtain ⟨k', hlt', hk'⟩ := hf.endsIn_inBranch_lt b.branchId hb
  obtain ⟨z, hz, hend, hwalk⟩ :=
    hk.walk_append hk' (fun _ _ => SegmentTable.outletSlot?_of_nextInBranch?) hlt hlt'
  have hjunction : b.junction? t = t.outletSlot? z := by
    refine Option.ext fun j => ?_
    rw [junction?_eq_some]
    constructor
    · rintro ⟨z', o, hz', hj, -⟩
      rw [walk, hz, Option.some.injEq] at hz'
      rw [hz']
      exact hj
    · intro hj
      obtain ⟨o, ho⟩ := SegmentTable.get?_of_lt (hf.sound.outletSlot?_lt hj)
      refine ⟨z, o, hz, hj, ho, fun hid => ?_⟩
      rw [SegmentTable.nextInBranch?_eq_some.mpr ⟨hj, o, ho, hid⟩] at hend
      cases hend
  refine ⟨z, hz, hend, hjunction, ?_⟩
  rw [path, outletChain_of_lt hb, hwalk, hjunction, walk]
  refine congrArg _ (congrArg (Option.getD · []) (Option.map_congr fun j hj => ?_))
  rw [outletChain_of_lt (hf.sound.outletSlot?_lt hj)]

/-- From the end of a chain it is as many steps to the wellhead as there are segments beyond
the chain. -/
theorem beyond_eq {k : Nat} {z : Slot} (hf : t.Forest) (hj : b.junction? t = t.outletSlot? z)
    (hk : EndsIn t.outletSlot? k z) : b.beyond t = k := by
  rw [beyond, hj]
  cases hk with
  | here hnone => rw [hnone, Option.map_none, Option.getD_none]
  | @there k z j hsome hk =>
      have hlt := hf.sound.outletSlot?_lt hsome
      rw [hsome, Option.map_some, Option.getD_some, outletChain_of_lt hlt,
        hk.length_walk (hk.lt_size hlt fun _ _ => hf.sound.outletSlot?_lt)]

/-! ## The chains of a list of branches -/

theorem exists_active_start (hd : t.DividedBy bs.branches) (hb : b ∈ bs.branches) :
    ∃ s, t.get? b.start = some s ∧ s.active = true :=
  (hd.inUse b.start).mp
    (List.mem_flatMap.mpr ⟨b, hb, List.mem_of_head? (hd.start b hb)⟩)

theorem start_lt_size (hd : t.DividedBy bs.branches) (hb : b ∈ bs.branches) :
    b.start < t.size := by
  obtain ⟨s, hs, -⟩ := exists_active_start hd hb
  exact SegmentTable.get?_lt hs

theorem leads_of_inBranch {a z : Slot} (h : Leads (t.nextInBranch? b.branchId) a z) :
    Leads t.outletSlot? a z :=
  Relation.ReflTransGen.mono (fun _ _ => SegmentTable.outletSlot?_of_nextInBranch?) _ _ h

/-- From every member of a chain the links lead to its end. -/
theorem leads_end {a z : Slot} (ha : a ∈ b.walk t) (hz : (b.walk t).getLast? = some z)
    (hend : t.nextInBranch? b.branchId z = none) : Leads t.outletSlot? a z := by
  refine leads_of_inBranch (b := b) ?_
  have hz := Slot.leads_of_mem_walk (List.mem_of_getLast? hz)
  rcases (Slot.leads_of_mem_walk ha).total hz with h | h
  · exact h
  · rcases Relation.ReflTransGen.cases_head h with rfl | ⟨c, hc, -⟩
    · exact .refl
    · rw [hend] at hc; cases hc

theorem exists_active_junction (hf : t.Forest) (hd : t.DividedBy bs.branches)
    (hb : b ∈ bs.branches) (hj : b.junction? t = some j) :
    ∃ o, t.get? j = some o ∧ o.active = true ∧ o.branchId ≠ b.branchId := by
  obtain ⟨z, o, hz, hzj, ho, hid⟩ := junction?_eq_some.mp hj
  have hleads := leads_of_inBranch (Slot.leads_of_mem_walk (List.mem_of_getLast? hz))
  obtain ⟨o', ho', hact⟩ := hf.leads_active (hleads.tail hzj) (exists_active_start hd hb)
  rw [ho, Option.some.injEq] at ho'
  exact ⟨o, ho, ho' ▸ hact, hid⟩

/-- What a chain drains into is one chain, and not itself. -/
theorem existsUnique_mem_walk (hf : t.Forest) (hd : t.DividedBy bs.branches)
    (hb : b ∈ bs.branches) (hj : b.junction? t = some j) :
    j ∉ b.walk t ∧ ∃! b', b' ∈ bs.branches ∧ j ∈ b'.walk t := by
  obtain ⟨o, ho, hact, hid⟩ := exists_active_junction hf hd hb hj
  constructor
  · intro hmem
    obtain ⟨o', ho', hid'⟩ := hd.member b hb j hmem
    rw [ho, Option.some.injEq] at ho'
    exact hid (ho' ▸ hid')
  · obtain ⟨b', hb', hmem⟩ := List.mem_flatMap.mp ((hd.inUse j).mpr ⟨o, ho, hact⟩)
    exact ⟨b', ⟨hb', hmem⟩, fun c hc => SegmentTable.eq_of_mem_walks hd.once hc.1 hb' hc.2 hmem⟩

/-- Less is left of the way to the wellhead with every chain. -/
theorem beyond_lt_of_drainsInto (hf : t.Forest) (hd : t.DividedBy bs.branches)
    (h : b.DrainsInto t bs b') : b'.beyond t < b.beyond t := by
  obtain ⟨hb, hb', j, hj, hmem⟩ := h
  obtain ⟨z, hz, -, hjunction, -⟩ := exists_end hf (start_lt_size hd hb)
  obtain ⟨z', hz', hend', hjunction', -⟩ := exists_end hf (start_lt_size hd hb')
  have hzj : t.outletSlot? z = some j := hjunction.symm.trans hj
  obtain ⟨k, -, hk⟩ := hf.endsIn_lt (hf.sound.outletSlot?_lt hzj)
  obtain ⟨m, hle, hm⟩ := hk.of_leads (leads_end hmem hz' hend')
  rw [beyond_eq hf hjunction (.there hzj hk), beyond_eq hf hjunction' hm]
  exact Nat.lt_succ_of_le hle

theorem nodup_of_isChain (hf : t.Forest) (hd : t.DividedBy bs.branches) {route : List Branch}
    (h : route.IsChain (DrainsInto t bs)) : route.Nodup := by
  have hfalls : (route.map fun b => b.beyond t).IsChain (· > ·) :=
    (List.isChain_map _).mpr (h.imp fun _ _ hinto => beyond_lt_of_drainsInto hf hd hinto)
  have hpairwise := List.isChain_iff_pairwise.mp hfalls
  exact List.Nodup.of_map _ (hpairwise.imp fun h => (Nat.ne_of_lt h).symm)

theorem exists_route (hf : t.Forest) (hd : t.DividedBy bs.branches) (hb : b ∈ bs.branches) :
    ∃ route : List Branch, route.head? = some b ∧ route.IsChain (DrainsInto t bs) ∧
      ∃ last, route.getLast? = some last ∧ last.junction? t = none := by
  induction hn : b.beyond t using Nat.strongRecOn generalizing b with
  | ind n ih =>
      cases hj : b.junction? t with
      | none => exact ⟨[b], rfl, .singleton b, b, rfl, hj⟩
      | some j =>
          obtain ⟨-, b', ⟨hb', hmem⟩, -⟩ := existsUnique_mem_walk hf hd hb hj
          have hinto : b.DrainsInto t bs b' := ⟨hb, hb', j, hj, hmem⟩
          obtain ⟨route, hhead, hchain, last, hlast, hdone⟩ :=
            ih _ (hn ▸ beyond_lt_of_drainsInto hf hd hinto) hb' rfl
          obtain ⟨rest, rfl⟩ := List.head?_eq_some_iff.mp hhead
          exact ⟨b :: b' :: rest, rfl, .cons_cons hinto hchain, last,
            by rw [List.getLast?_cons_cons, hlast], hdone⟩

/-! ## Branches of a linked table -/

theorem leadsOut (hf : t.Forest) (hd : t.DividedBy bs.branches) (hb : b ∈ bs.branches) :
    b.LeadsOut t bs := by
  have hlt := start_lt_size hd hb
  obtain ⟨z, hz, hend, hjunction, hpath⟩ := exists_end hf hlt
  obtain ⟨k, hklt, hk⟩ := hf.endsIn_lt hlt
  have hwhole : b.path t = Slot.walk t.outletSlot? t.size b.start := outletChain_of_lt hlt
  constructor
  case junction =>
    intro j
    rw [hjunction]
    constructor
    · exact fun hj => ⟨z, hz, hj⟩
    · rintro ⟨z', hz', hj⟩
      rw [hz, Option.some.injEq] at hz'
      rw [hz']
      exact hj
  case meets =>
    exact fun j hj => ⟨exists_active_junction hf hd hb hj, existsUnique_mem_walk hf hd hb hj⟩
  case path_eq => exact hpath
  case path_nodup => rw [hwhole]; exact hk.nodup_walk
  case path_active =>
    intro a ha
    rw [hwhole] at ha
    exact hf.leads_active (Slot.leads_of_mem_walk ha) (exists_active_start hd hb)
  case path_end =>
    obtain ⟨last, hlast, hnone⟩ := hk.getLast?_walk hklt
    have hleads := Slot.leads_of_mem_walk (List.mem_of_getLast? hlast)
    obtain ⟨s, hs, hid⟩ := hf.outletId_of_end (hf.leads_lt hleads hlt) hnone
    exact ⟨last, s, by rw [hwhole, hlast], hs, hid,
      by rw [← SegmentTable.outletSlot?_of_get? hs, hnone]⟩
  case noReturn => exact fun route _ hchain => nodup_of_isChain hf hd hchain
  case arrives => exact exists_route hf hd hb
  case uncut =>
    intro n hn
    obtain ⟨m, hmlt, hm⟩ := hf.endsIn_inBranch_lt b.branchId hlt
    exact ⟨hm.walk_eq (Nat.lt_of_lt_of_le hmlt hn) hmlt,
      hwhole ▸ hk.walk_eq (Nat.lt_of_lt_of_le hklt hn) hklt⟩

/-- After linking and decomposing, whatever was called before, every branch leads to the
wellhead, by way of others that it never comes back to. -/
theorem leadsOut_of_decompose {calls : List TableCall} {n : Nat}
    (h : (SegmentTable.ofCalls calls).linkAll = (.ok n, t)) (hbs : t.decompose = .ok bs)
    (hb : b ∈ bs.branches) : b.LeadsOut t bs := by
  have hf := SegmentTable.forest_of_linkAll (SegmentTable.sound_ofCalls calls) h
  exact leadsOut hf (hf.dividedBy hbs) hb

/-- Number 1 names three chains. One of them drains into a lateral that leaves from the middle
of another. -/
theorem leadsOut_of_decompose_reused_number :
    ∃ t bs, (SegmentTable.ofCalls [.insert ⟨1, 0, 1, {}⟩, .insert ⟨2, 1, 1, {}⟩,
        .insert ⟨3, 2, 1, {}⟩, .insert ⟨4, 2, 2, {}⟩, .insert ⟨5, 4, 1, {}⟩,
        .insert ⟨6, 0, 1, {}⟩, .insert ⟨7, 6, 0, {}⟩]).linkAll = (.ok 5, t) ∧
      t.decompose = .ok bs ∧ bs.branches = [⟨1, 2⟩, ⟨1, 4⟩, ⟨1, 5⟩, ⟨2, 3⟩] ∧
      (⟨1, 4⟩ : Branch).LeadsOut t bs := by
  have hlink : ∀ t : SegmentTable, t.linkAll.1 = .ok 5 → t.linkAll = (.ok 5, t.linkAll.2) :=
    fun t h => Prod.ext h rfl
  have h := hlink (SegmentTable.ofCalls [.insert ⟨1, 0, 1, {}⟩, .insert ⟨2, 1, 1, {}⟩,
    .insert ⟨3, 2, 1, {}⟩, .insert ⟨4, 2, 2, {}⟩, .insert ⟨5, 4, 1, {}⟩,
    .insert ⟨6, 0, 1, {}⟩, .insert ⟨7, 6, 0, {}⟩]) (by decide +kernel)
  have hbs : (SegmentTable.ofCalls [.insert ⟨1, 0, 1, {}⟩, .insert ⟨2, 1, 1, {}⟩,
    .insert ⟨3, 2, 1, {}⟩, .insert ⟨4, 2, 2, {}⟩, .insert ⟨5, 4, 1, {}⟩,
    .insert ⟨6, 0, 1, {}⟩, .insert ⟨7, 6, 0, {}⟩]).linkAll.2.decompose =
      .ok (.ofBranches [⟨1, 2⟩, ⟨1, 4⟩, ⟨1, 5⟩, ⟨2, 3⟩]) := by decide +kernel
  exact ⟨_, _, h, hbs, rfl, leadsOut_of_decompose h hbs (by decide)⟩

end Branch

end Wellbore
