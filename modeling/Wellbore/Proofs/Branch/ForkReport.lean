import Wellbore.Proofs.Branch.Partition
import Wellbore.Proofs.Segment.Calls

/-!
# Which fork is reported

Chains claim their members one after the other, in the order of their starts, and the first
member that is claimed already ends it. So whatever was claimed before belongs to chains that
are disjoint, and to the front of the chain that has come to the member; this is all that a
clash has to say (`clash?_eq_some`), and it is a statement about lists only.

That the member was claimed by another start, and not by the one that wants it, is where the
links come in: in a forest no chain meets a segment twice.
-/

namespace Wellbore

/-- Where a list that was collected is divided, the list that it was collected from is. -/
theorem exists_of_flatMap_eq {α β : Type} {f : α → List β} {xs : List α} {before after : List β}
    {y : β} (h : xs.flatMap f = before ++ y :: after) :
    ∃ earlier x later front rest, xs = earlier ++ x :: later ∧ f x = front ++ y :: rest ∧
      before = earlier.flatMap f ++ front := by
  induction xs generalizing before with
  | nil => exact absurd h (by simp)
  | cons x xs ih =>
      have h : (∃ before', xs.flatMap f = before' ++ y :: after ∧ before = f x ++ before') ∨
          ∃ rest, f x = before ++ y :: rest := by
        rw [List.flatMap_cons, List.append_eq_append_iff] at h
        rcases h with ⟨before', hbefore, hrest⟩ | ⟨tail, hx, htail⟩
        · exact .inl ⟨before', hrest, hbefore⟩
        · cases tail with
          | nil => exact .inl ⟨[], htail.symm, by rw [hx, List.append_nil, List.append_nil]⟩
          | cons z tail =>
              obtain ⟨rfl, -⟩ := List.cons.inj htail
              exact .inr ⟨tail, hx⟩
      rcases h with ⟨before', hrest, rfl⟩ | ⟨rest, hx⟩
      · obtain ⟨earlier, x', later, front, rest, rfl, hx', rfl⟩ := ih hrest
        exact ⟨x :: earlier, x', later, front, rest, rfl, hx',
          by rw [List.flatMap_cons, List.append_assoc]⟩
      · exact ⟨[], x, xs, before, rest, rfl, hx, rfl⟩

namespace SegmentTable

variable {t : SegmentTable} {a owner : Slot} {b : Branch} {bs : List Branch} {e : TopologyError}

/-- Of all chains in the order of their starts, the one of `second` is the first that runs into
the chain of an earlier start, and `first` is the one start whose chain it runs into. -/
structure FirstFork (t : SegmentTable) (first second : Branch) : Prop where
  starts : t.StartsBranch first ∧ t.StartsBranch second
  sameBranch : first.branchId = second.branchId
  inOrder : first.start < second.start
  noneBefore : ∀ x y, t.StartsBranch x → t.StartsBranch y → x.start < y.start →
    y.start < second.start → List.Disjoint (x.walk t) (y.walk t)
  meets : ∃ front meeting rest, second.walk t = front ++ meeting :: rest ∧
    meeting ∈ first.walk t ∧
    (∀ x, t.StartsBranch x → x.start < second.start → List.Disjoint front (x.walk t)) ∧
    ∀ x, t.StartsBranch x → x.start < second.start → meeting ∈ x.walk t → x = first

/-! ## The claims before a clash -/

theorem clash?_eq_some {claimed : List (Slot × Slot)} {wanted : List (Slot × Branch)}
    (h : clash? claimed wanted = some (owner, b)) :
    ∃ before slot after, wanted = before ++ (slot, b) :: after ∧
      (before.map Prod.fst).Nodup ∧ (∀ p ∈ before, claimed.lookup p.1 = none) ∧
      (claimed.lookup slot = some owner ∨ ∃ b', (slot, b') ∈ before ∧ b'.start = owner) := by
  induction wanted generalizing claimed with
  | nil => cases h
  | cons p rest ih =>
      obtain ⟨slot, wants⟩ := p
      rw [clash?] at h
      split at h
      · next owner' hclaimed =>
          cases h
          exact ⟨[], slot, rest, rfl, .nil, fun p hp => absurd hp List.not_mem_nil, .inl hclaimed⟩
      · next hfree =>
          obtain ⟨before, slot', after, rfl, hnodup, hbefore, howner⟩ := ih h
          -- nothing that is claimed later is the slot just claimed
          have hsplit : ∀ p ∈ before, p.1 ≠ slot ∧ claimed.lookup p.1 = none := by
            intro p hp
            have hlookup := hbefore p hp
            rw [List.lookup_cons] at hlookup
            split at hlookup
            · cases hlookup
            · next hne => exact ⟨ne_of_beq_false hne, hlookup⟩
          refine ⟨(slot, wants) :: before, slot', after, rfl, ?_, ?_, ?_⟩
          · rw [List.map_cons, List.nodup_cons]
            refine ⟨fun hmem => ?_, hnodup⟩
            obtain ⟨p, hp, heq⟩ := List.mem_map.mp hmem
            exact (hsplit p hp).1 heq
          · exact List.forall_mem_cons.mpr ⟨hfree, fun p hp => (hsplit p hp).2⟩
          · rcases howner with howner | ⟨b', hb', hstart⟩
            · rw [List.lookup_cons] at howner
              split at howner
              · next heq =>
                  refine .inr ⟨wants, ?_, Option.some.inj howner⟩
                  rw [beq_iff_eq.mp heq]
                  exact List.mem_cons_self
              · exact .inl howner
            · exact .inr ⟨b', List.mem_cons_of_mem _ hb', hstart⟩

/-- Where the claims are divided, the branches are, and the chain of one of them. -/
theorem exists_of_claims_eq {before after : List (Slot × Branch)}
    (h : t.claims bs = before ++ (a, b) :: after) :
    ∃ earlier later front rest, bs = earlier ++ b :: later ∧
      b.walk t = front ++ a :: rest ∧
      before = t.claims earlier ++ front.map fun slot => (slot, b) := by
  obtain ⟨earlier, c, later, front, rest, hbs, hwalk, hbefore⟩ := exists_of_flatMap_eq h
  obtain ⟨front, back, hsplit, rfl, hback⟩ := List.map_eq_append_iff.mp hwalk
  obtain ⟨slot, rest, rfl, hslot, -⟩ := List.map_eq_cons_iff.mp hback
  obtain ⟨rfl, rfl⟩ := Prod.mk.inj hslot
  exact ⟨earlier, later, front, rest, hbs, hsplit, hbefore⟩

theorem mem_claims : (a, b) ∈ t.claims bs ↔ b ∈ bs ∧ a ∈ b.walk t := by
  simp [claims]

/-! ## The fork of a forest -/

/-- Of the starts, those that stand before another one are those of earlier rows. -/
theorem mem_earlier {earlier later : List Branch} (h : t.starts = earlier ++ b :: later)
    {x : Branch} (hx : t.StartsBranch x) (hlt : x.start < b.start) : x ∈ earlier := by
  have hsorted := List.pairwise_map.mp (pairwise_starts t)
  rw [h] at hsorted
  obtain ⟨-, hlater, -⟩ := List.pairwise_append.mp hsorted
  have hmem := mem_starts_iff.mpr hx
  rw [h] at hmem
  rcases List.mem_append.mp hmem with hmem | hmem
  · exact hmem
  · rcases List.mem_cons.mp hmem with rfl | hmem
    · exact absurd hlt (Nat.lt_irrefl _)
    · exact absurd hlt (Nat.lt_asymm (List.rel_of_pairwise_cons hlater hmem))

/-- What the claiming of a forest stops at is its first fork. -/
theorem Forest.firstFork_of_clash (hf : t.Forest)
    (h : clash? [] (t.claims t.starts) = some (owner, b)) :
    ∃ first, first.start = owner ∧ t.FirstFork first b := by
  obtain ⟨before, meeting, after, hclaims, hnodup, -, howner⟩ := clash?_eq_some h
  obtain ⟨first, hclaimed, hfirst⟩ := howner.resolve_left fun h => by cases h
  obtain ⟨earlier, later, front, rest, hstarts, hwalk, rfl⟩ := exists_of_claims_eq hclaims
  have hb : b ∈ t.starts := hstarts ▸ List.mem_append_right _ List.mem_cons_self
  have hmem : ∀ x ∈ earlier, x ∈ t.starts := fun x hx => hstarts ▸ List.mem_append_left _ hx
  have hsorted := List.pairwise_map.mp (pairwise_starts t)
  rw [hstarts] at hsorted
  obtain ⟨-, -, hbefore⟩ := List.pairwise_append.mp hsorted
  rw [List.map_append, claims_map_fst, List.map_map, List.nodup_append] at hnodup
  obtain ⟨hearlier, -, hfront⟩ := hnodup
  have hfront : ∀ x ∈ earlier, List.Disjoint front (x.walk t) := fun x hx a ha hax =>
    hfront a (List.mem_flatMap.mpr ⟨x, hx, hax⟩) a (List.mem_map.mpr ⟨a, ha, rfl⟩) rfl
  -- the chain of `b` does not meet itself, so the member was claimed by an earlier start
  have hfirstmem : first ∈ earlier ∧ meeting ∈ first.walk t := by
    rcases List.mem_append.mp hclaimed with hclaimed | hclaimed
    · exact mem_claims.mp hclaimed
    · obtain ⟨slot, hslot, heq⟩ := List.mem_map.mp hclaimed
      obtain ⟨rfl, -⟩ := Prod.mk.inj heq
      have htwice := hf.nodup_walk (start_lt hb)
      rw [hwalk] at htwice
      exact absurd rfl ((List.nodup_append.mp htwice).2.2 slot hslot slot List.mem_cons_self)
  obtain ⟨hfirstmem, hmeeting⟩ := hfirstmem
  have hmeeting' : meeting ∈ b.walk t :=
    hwalk ▸ List.mem_append_right _ List.mem_cons_self
  refine ⟨first, hfirst, ?_⟩
  constructor
  case starts => exact ⟨mem_starts_iff.mp (hmem first hfirstmem), mem_starts_iff.mp hb⟩
  case sameBranch =>
    obtain ⟨s, hs, hid, -⟩ :=
      active_of_leads (hmem first hfirstmem) (Slot.leads_of_mem_walk hmeeting)
    obtain ⟨s', hs', hid', -⟩ := active_of_leads hb (Slot.leads_of_mem_walk hmeeting')
    rw [hs, Option.some.injEq] at hs'
    rw [← hid, hs', hid']
  case inOrder => exact hbefore first hfirstmem b List.mem_cons_self
  case noneBefore =>
    intro x y hx hy hxy hyb a hax hay
    have heq := eq_of_mem_walks hearlier (mem_earlier hstarts hx (Nat.lt_trans hxy hyb))
      (mem_earlier hstarts hy hyb) hax hay
    rw [heq] at hxy
    exact Nat.lt_irrefl _ hxy
  case meets =>
    refine ⟨front, meeting, rest, hwalk, hmeeting, fun x hx hlt => ?_, fun x hx hlt hmem => ?_⟩
    · exact hfront x (mem_earlier hstarts hx hlt)
    · exact eq_of_mem_walks hearlier (mem_earlier hstarts hx hlt) hfirstmem hmem hmeeting

/-- When a table that has been linked is not decomposed, the error names the branch of the first
fork and the numbers of the two segments whose chains run together there. -/
theorem firstFork_of_decompose {calls : List TableCall} {n : Nat}
    (h : (ofCalls calls).linkAll = (.ok n, t)) (he : t.decompose = .error e) :
    ∃ first second s r, t.FirstFork first second ∧ t.get? first.start = some s ∧
      t.get? second.start = some r ∧ e = .ambiguousBranchStart first.branchId s.id r.id := by
  have hf := forest_of_linkAll (sound_ofCalls calls) h
  rw [hf.decompose_eq] at he
  split at he
  · next owner second hclash =>
      obtain ⟨first, hfirst, hfork⟩ := hf.firstFork_of_clash hclash
      obtain ⟨⟨⟨s, hs, -⟩, -⟩, ⟨⟨r, hr, -⟩, -⟩⟩ := hfork.starts
      refine ⟨first, second, s, r, hfork, hs, hr, ?_⟩
      cases he
      rw [← hfirst, idAt, idAt, hs, hr, hfork.sameBranch]
      rfl
  · cases he

/-- A main bore with a lateral. The lateral forks, and a later row starts a second chain of the
main bore. -/
def forkedLateral : List TableCall :=
  [.insert ⟨1, 0, 1, {}⟩, .insert ⟨2, 1, 1, {}⟩, .insert ⟨3, 2, 1, {}⟩, .insert ⟨4, 2, 2, {}⟩,
    .insert ⟨5, 4, 2, {}⟩, .insert ⟨6, 4, 2, {}⟩, .insert ⟨7, 1, 1, {}⟩]

/-- The lateral forks before the second chain of the main bore comes to the first one. -/
theorem firstFork_of_decompose_forkedLateral :
    ∃ t first second, (ofCalls forkedLateral).linkAll = (.ok 6, t) ∧
      t.decompose = .error (.ambiguousBranchStart 2 5 6) ∧ t.FirstFork first second ∧
      t.idAt first.start = 5 ∧ t.idAt second.start = 6 := by
  have h : (ofCalls forkedLateral).linkAll = (.ok 6, (ofCalls forkedLateral).linkAll.2) :=
    linkAll_eq (by decide +kernel)
  have he : (ofCalls forkedLateral).linkAll.2.decompose =
      .error (.ambiguousBranchStart 2 5 6) := by decide +kernel
  obtain ⟨first, second, s, r, hfork, hs, hr, hids⟩ := firstFork_of_decompose h he
  obtain ⟨-, hfirst, hsecond⟩ := TopologyError.ambiguousBranchStart.inj hids
  refine ⟨_, first, second, h, he, hfork, ?_, ?_⟩
  · rw [idAt, hs, Option.map_some, Option.getD_some, hfirst]
  · rw [idAt, hr, Option.map_some, Option.getD_some, hsecond]

end SegmentTable

end Wellbore
