import Mathlib.Data.List.Flatten
import Wellbore.Proofs.Branch.Starts
import Wellbore.Proofs.Branch.Sorting

/-!
# Branches divide the segments in use among them

In a linked table decomposing can go wrong in one way only. Every outlet has been
linked and every branch number has a start, so what is left is the check that no
two chains claim one slot; and that happens exactly where two segments in use
drain into a member of their own branch, a fork. Without a fork the chains are
disjoint, and since every segment in use lies on the chain of some start, they
divide the segments in use among them.
-/

namespace Wellbore

namespace BranchList

variable {bs : BranchList} {id : Int32}

/-- The branch numbers that name a chain, each of them once. -/
def numbers (bs : BranchList) : List Int32 := (bs.branches.map (·.branchId)).eraseDups

theorem mem_numbers : id ∈ bs.numbers ↔ ∃ b ∈ bs.branches, b.branchId = id := by
  rw [numbers, List.mem_eraseDups, List.mem_map]

end BranchList

namespace SegmentTable

open Slot (EndsIn Ends Leads)

variable {t : SegmentTable} {a b : Slot} {s : Segment} {branch branch' : Branch}
  {rows : List SegmentRow} {n : Nat}

/-- Two segments in use of one branch drain into the same member of that branch. -/
def Forks (t : SegmentTable) : Prop :=
  ∃ a b s r c o, a ≠ b ∧ t.get? a = some s ∧ t.get? b = some r ∧ s.active = true ∧
    r.active = true ∧ s.branchId = r.branchId ∧ s.outlet = some c ∧ r.outlet = some c ∧
    t.get? c = some o ∧ o.branchId = s.branchId

/-- The chains of some branches divide the segments in use among them. -/
structure DividedBy (t : SegmentTable) (bs : List Branch) : Prop where
  once : (bs.flatMap fun b => b.walk t).Nodup
  inUse : ∀ a, a ∈ (bs.flatMap fun b => b.walk t) ↔
    ∃ s, t.get? a = some s ∧ s.active = true
  member : ∀ b ∈ bs, ∀ a ∈ b.walk t, ∃ s, t.get? a = some s ∧ s.branchId = b.branchId
  joined : ∀ b ∈ bs, (b.walk t).IsChain fun x y => t.outletSlot? x = some y
  start : ∀ b ∈ bs, (b.walk t).head? = some b.start
  unfed : ∀ b ∈ bs, ∀ a s, t.get? a = some s → s.active = true → s.branchId = b.branchId →
    s.outlet ≠ some b.start

/-! ## The chains of starts -/

theorem Forest.mem_walk_iff (hf : t.Forest) (hb : branch.start < t.size) :
    a ∈ branch.walk t ↔ Leads (t.nextInBranch? branch.branchId) branch.start a := by
  obtain ⟨k, hlt, hk⟩ := hf.endsIn_inBranch_lt branch.branchId hb
  exact ⟨Slot.leads_of_mem_walk, fun h => hk.mem_walk hlt h⟩

theorem Forest.nodup_walk (hf : t.Forest) (hb : branch.start < t.size) :
    (branch.walk t).Nodup := by
  obtain ⟨k, hk⟩ : Ends (t.nextInBranch? branch.branchId) branch.start := hf.ends_inBranch hb
  exact hk.nodup_walk

theorem start_lt (h : branch ∈ t.starts) : branch.start < t.size := by
  obtain ⟨⟨s, hs, _⟩, _⟩ := mem_starts.mp h
  exact get?_lt hs

/-- Two chains that share a slot come together at a fork. -/
theorem forks_of_shared (h : branch ∈ t.starts) (h' : branch' ∈ t.starts)
    (hne : branch.start ≠ branch'.start) (ha : a ∈ branch.walk t) (ha' : a ∈ branch'.walk t) :
    t.Forks := by
  have hleads := Slot.leads_of_mem_walk ha
  have hleads' := Slot.leads_of_mem_walk ha'
  obtain ⟨s, hs, hid, _⟩ := active_of_leads h hleads
  obtain ⟨s', hs', hid', _⟩ := active_of_leads h' hleads'
  rw [hs] at hs'
  cases hs'
  have hsame : branch'.branchId = branch.branchId := hid'.symm.trans hid
  rw [hsame] at hleads'
  rcases hleads.meet hleads' with hstart | hstart | ⟨p, q, c, hpq, hp, hq, hpc, hqc⟩
  · exact absurd hstart (not_leads_to_start h h' hne)
  · rw [← hsame] at hstart
    exact absurd hstart (not_leads_to_start h' h hne.symm)
  · obtain ⟨r, hr, hrid, hract⟩ := active_of_leads h hp
    have hq' : Leads (t.nextInBranch? branch'.branchId) branch'.start q := by rw [hsame]; exact hq
    obtain ⟨r', hr', hrid', hract'⟩ := active_of_leads h' hq'
    obtain ⟨hout, o, ho, hoid⟩ := nextInBranch?_eq_some.mp hpc
    obtain ⟨hout', _⟩ := nextInBranch?_eq_some.mp hqc
    rw [outletSlot?_of_get? hr] at hout
    rw [outletSlot?_of_get? hr'] at hout'
    exact ⟨p, q, r, r', c, o, hpq, hr, hr', hract, hract', by rw [hrid, hrid', hsame], hout,
      hout', ho, hoid.trans hrid.symm⟩

/-- At a fork two chains share a slot. -/
theorem Forest.shared_of_forks (hf : t.Forest) (h : t.Forks) :
    ∃ branch ∈ t.starts, ∃ branch' ∈ t.starts, branch.start ≠ branch'.start ∧
      ∃ a, a ∈ branch.walk t ∧ a ∈ branch'.walk t := by
  obtain ⟨p, q, s, r, c, o, hpq, hs, hr, hsact, hract, hid, hout, hout', ho, hoid⟩ := h
  obtain ⟨x, hx, hxid, hxp⟩ := hf.exists_start hs hsact
  obtain ⟨y, hy, hyid, hyq⟩ := hf.exists_start hr hract
  have hp : t.nextInBranch? s.branchId p = some c :=
    nextInBranch?_eq_some.mpr ⟨(outletSlot?_of_get? hs).trans hout, o, ho, hoid⟩
  have hq : t.nextInBranch? s.branchId q = some c :=
    nextInBranch?_eq_some.mpr ⟨(outletSlot?_of_get? hr).trans hout', o, ho, hoid⟩
  rw [← hid] at hyid hyq
  refine ⟨x, hx, y, hy, fun heq => ?_, c, ?_, ?_⟩
  · -- one chain through both would pass the fork twice
    rw [heq] at hxp
    have hback : ∀ {p q : Slot}, p ≠ q → p < t.size → q < t.size →
        t.nextInBranch? s.branchId p = some c → t.nextInBranch? s.branchId q = some c →
        ¬ Leads (t.nextInBranch? s.branchId) p q := by
      intro p q hne hplt hqlt hp hq hleads
      rcases Relation.ReflTransGen.cases_head hleads with heq | ⟨d, hd, hdq⟩
      · exact hne heq
      · rw [hp] at hd
        cases hd
        obtain ⟨k, hk⟩ : Ends (t.nextInBranch? s.branchId) q := hf.ends_inBranch hqlt
        exact hk.not_leads_back hq hdq
    rcases hxp.total hyq with hleads | hleads
    · exact hback hpq (get?_lt hs) (get?_lt hr) hp hq hleads
    · exact hback hpq.symm (get?_lt hr) (get?_lt hs) hq hp hleads
  · rw [hf.mem_walk_iff (start_lt hx), hxid]
    exact hxp.tail hp
  · rw [hf.mem_walk_iff (start_lt hy), hyid]
    exact hyq.tail hq

/-! ## The claims of the chains -/

/-- The check for a second claim passes if and only if there is none. -/
theorem clash?_eq_none {claimed : List (Slot × Slot)} {wanted : List (Slot × Branch)} :
    clash? claimed wanted = none ↔
      (wanted.map Prod.fst).Nodup ∧ ∀ p ∈ wanted, claimed.lookup p.1 = none := by
  induction wanted generalizing claimed with
  | nil => simp [clash?]
  | cons p rest ih =>
      obtain ⟨slot, branch⟩ := p
      rw [clash?, List.map_cons, List.nodup_cons, List.forall_mem_cons]
      split
      · next owner h =>
          rw [h]
          exact ⟨fun hno => (Option.some_ne_none _ hno).elim,
            fun hno => (Option.some_ne_none _ hno.2.1).elim⟩
      · next h =>
          have hlookup : ∀ a, ((slot, branch.start) :: claimed).lookup a = none ↔
              a ≠ slot ∧ claimed.lookup a = none := by
            intro a
            rw [List.lookup_cons]
            by_cases heq : a = slot
            · simp [heq]
            · rw [beq_false_of_ne heq]
              exact ⟨fun hno => ⟨heq, hno⟩, fun hno => hno.2⟩
          simp only [ih, hlookup, h, true_and, List.mem_map, Prod.exists, exists_and_right,
            exists_eq_right, not_exists, Prod.forall]
          grind

theorem nodup_eraseDups (ids : List Int32) : ids.eraseDups.Nodup := by
  induction hn : ids.length using Nat.strongRecOn generalizing ids with
  | ind n ih =>
      cases ids with
      | nil => rw [List.eraseDups_nil]; exact .nil
      | cons id rest =>
          have hshorter : (rest.filter fun id' => !id' == id).length < n := by
            rw [← hn, List.length_cons]
            exact Nat.lt_succ_of_le (List.length_filter_le _ _)
          have hgone : id ∉ (rest.filter fun id' => !id' == id).eraseDups := by
            rw [List.mem_eraseDups, List.mem_filter, beq_self_eq_true]
            exact fun h => Bool.noConfusion h.2
          rw [List.eraseDups_cons]
          exact List.nodup_cons.mpr ⟨hgone, ih _ hshorter _ rfl⟩

/-! ## Decomposing -/

theorem claims_map_fst (bs : List Branch) :
    (t.claims bs).map Prod.fst = bs.flatMap fun b => b.walk t := by
  rw [claims, List.map_flatMap]
  refine List.flatMap_congr fun b _ => ?_
  rw [List.map_map]
  exact List.map_id _

theorem clash?_starts_eq_none : clash? [] (t.claims t.starts) = none ↔
    (t.starts.flatMap fun b => b.walk t).Nodup := by
  rw [clash?_eq_none, claims_map_fst]
  exact and_iff_left fun _ _ => rfl

/-- Sorting the starts collects them by number, since every start has a number in use. -/
theorem sortByNumber_starts (t : SegmentTable) :
    Branch.sortByNumber t.branchIds t.starts = Branch.grouped t.branchIds t.starts :=
  Branch.sortByNumber_eq_grouped (nodup_eraseDups _) fun _ => branchId_mem_branchIds

/-- Decomposing any table succeeds if everything is linked, every branch number has a
start and no two chains meet. -/
theorem decompose_eq_ok {bs : BranchList} : t.decompose = .ok bs ↔
    t.unlinked? = none ∧ (∀ id ∈ t.branchIds, ∃ b ∈ t.starts, b.branchId = id) ∧
      (t.starts.flatMap fun b => b.walk t).Nodup ∧
      bs = .ofBranches (Branch.grouped t.branchIds t.starts) := by
  have hstarted : (t.branchIds.find? fun id => !t.starts.any fun b => b.branchId == id) = none ↔
      ∀ id ∈ t.branchIds, ∃ b ∈ t.starts, b.branchId = id := by
    simp only [List.find?_eq_none, Bool.not_eq_true', Bool.not_eq_false, List.any_eq_true,
      beq_iff_eq]
  rw [← hstarted, ← clash?_starts_eq_none, ← sortByNumber_starts]
  unfold decompose
  split
  next e he => simp only [he, reduceCtorEq, false_and]
  next hlinked =>
    dsimp only
    split
    next id hid => simp only [hid, reduceCtorEq, false_and, and_false]
    next hids =>
      split
      next owner b hclash => simp only [hclash, reduceCtorEq, false_and, and_false]
      next hclash =>
        simp only [hlinked, hids, hclash, true_and, Except.ok.injEq]
        exact eq_comm

/-- Walks that share no slot are told apart by any one of their slots. -/
theorem eq_of_mem_walks {bs : List Branch} (hnodup : (bs.flatMap fun b => b.walk t).Nodup)
    (hb : branch ∈ bs) (hb' : branch' ∈ bs) (ha : a ∈ branch.walk t)
    (ha' : a ∈ branch'.walk t) : branch = branch' := by
  by_contra hne
  obtain ⟨-, hdisjoint⟩ := List.nodup_flatMap.mp hnodup
  have hsym : Std.Symm (Function.onFun List.Disjoint fun b : Branch => b.walk t) :=
    ⟨fun _ _ h _ ha ha' => h ha' ha⟩
  exact hdisjoint.forall hb hb' hne ha ha'

theorem Forest.nodup_walks_iff (hf : t.Forest) :
    (t.starts.flatMap fun b => b.walk t).Nodup ↔ ¬ t.Forks := by
  constructor
  · intro hnodup hforks
    obtain ⟨x, hx, y, hy, hne, a, ha, ha'⟩ := hf.shared_of_forks hforks
    exact hne (congrArg _ (eq_of_mem_walks hnodup hx hy ha ha'))
  · intro hno
    rw [List.nodup_flatMap]
    refine ⟨fun b hb => hf.nodup_walk (start_lt hb), ?_⟩
    refine (List.pairwise_map.mp nodup_starts).imp_of_mem fun {x y} hx hy hne a ha ha' => ?_
    exact hno (forks_of_shared hx hy hne ha ha')

theorem unlinked?_eq_none : t.unlinked? = none ↔
    ∀ a s, t.get? a = some s → s.outletId ≠ wellheadOutlet → ∃ b, s.outlet = some b := by
  rw [unlinked?, List.findSome?_eq_none_iff]
  constructor
  · intro h a s ha hw
    have hs := h s (Array.mem_toList_iff.mpr (mem_rows.mpr ⟨a, ha⟩))
    cases hout : s.outlet with
    | some b => exact ⟨b, rfl⟩
    | none =>
        rw [hout, Bool.eq_false_iff.mpr fun h => hw (nearestWellhead_iff.mp h)] at hs
        cases hs
  · intro h s hmem
    obtain ⟨a, ha⟩ := mem_rows.mp (Array.mem_toList_iff.mp hmem)
    by_cases hw : s.outletId = wellheadOutlet
    · rw [nearestWellhead_iff.mpr hw]; rfl
    · obtain ⟨b, hb⟩ := h a s ha hw
      rw [hb, Option.isNone_some, Bool.and_false]
      rfl

theorem Forest.unlinked?_eq_none (hf : t.Forest) : t.unlinked? = none :=
  SegmentTable.unlinked?_eq_none.mpr fun _ _ ha hw => hf.linked ha hw

theorem Forest.branchIds_started (hf : t.Forest) :
    (t.branchIds.find? fun id => !t.starts.any fun b => b.branchId == id) = none := by
  rw [List.find?_eq_none]
  intro id hid
  obtain ⟨a, s, ha, hact, rfl⟩ := mem_branchIds.mp hid
  obtain ⟨b, hb, hbid, _⟩ := hf.exists_start ha hact
  have hany : (t.starts.any fun b => b.branchId == s.branchId) = true :=
    List.any_eq_true.mpr ⟨b, hb, beq_iff_eq.mpr hbid⟩
  rw [hany]
  exact Bool.false_ne_true

/-- In a forest only the claims of the chains are left to check. -/
theorem Forest.decompose_eq (hf : t.Forest) : t.decompose =
    match clash? [] (t.claims t.starts) with
    | some (owner, b) =>
      .error (.ambiguousBranchStart b.branchId (t.idAt owner) (t.idAt b.start))
    | none => .ok (.ofBranches (Branch.grouped t.branchIds t.starts)) := by
  rw [← sortByNumber_starts]
  cases h : clash? [] (t.claims t.starts) with
  | some p => simp only [decompose, hf.unlinked?_eq_none, hf.branchIds_started, h]
  | none => simp only [decompose, hf.unlinked?_eq_none, hf.branchIds_started, h]

/-- All that decomposing a forest can do. -/
theorem Forest.decompose_cases (hf : t.Forest) :
    (t.Forks ∧ ∃ id first second,
      t.decompose = .error (.ambiguousBranchStart id first second)) ∨
    (¬ t.Forks ∧ t.decompose = .ok (.ofBranches (Branch.grouped t.branchIds t.starts))) := by
  have hclash : clash? [] (t.claims t.starts) = none ↔ ¬ t.Forks :=
    clash?_starts_eq_none.trans hf.nodup_walks_iff
  rw [hf.decompose_eq]
  cases h : clash? [] (t.claims t.starts) with
  | some p =>
      have hforks : t.Forks := by
        by_contra hno
        rw [hclash.mpr hno] at h
        cases h
      exact .inl ⟨hforks, _, _, _, rfl⟩
  | none => exact .inr ⟨hclash.mp h, rfl⟩

theorem perm_starts (t : SegmentTable) : (Branch.grouped t.branchIds t.starts).Perm t.starts :=
  perm_flatMap_filter (nodup_eraseDups _) fun _ hb => branchId_mem_branchIds hb

theorem Forest.dividedBy_starts (hf : t.Forest) (hno : ¬ t.Forks) : t.DividedBy t.starts where
  once := hf.nodup_walks_iff.mpr hno
  inUse a := by
    rw [List.mem_flatMap]
    constructor
    · rintro ⟨b, hb, ha⟩
      obtain ⟨s, hs, _, hact⟩ := active_of_leads hb (Slot.leads_of_mem_walk ha)
      exact ⟨s, hs, hact⟩
    · rintro ⟨s, hs, hact⟩
      obtain ⟨b, hb, hid, hleads⟩ := hf.exists_start hs hact
      exact ⟨b, hb, (hf.mem_walk_iff (start_lt hb)).mpr (by rw [hid]; exact hleads)⟩
  member b hb a ha := by
    obtain ⟨s, hs, hid, _⟩ := active_of_leads hb (Slot.leads_of_mem_walk ha)
    exact ⟨s, hs, hid⟩
  joined b _ := Slot.isChain_walk.imp fun _ _ => outletSlot?_of_nextInBranch?
  start b hb := by
    obtain ⟨m, hm⟩ := Nat.exists_eq_add_one.mpr (Nat.zero_lt_of_lt (start_lt hb))
    rw [Branch.walk, hm, Slot.head?_walk]
  unfed b hb := (mem_starts_iff.mp hb).2

/-- Only the order of the branches changes when they are collected by number. -/
theorem DividedBy.of_perm {bs bs' : List Branch} (h : t.DividedBy bs) (hp : bs'.Perm bs) :
    t.DividedBy bs' where
  once := (hp.flatMap_right fun b => b.walk t).nodup_iff.mpr h.once
  inUse a := (hp.flatMap_right fun b => b.walk t).mem_iff.trans (h.inUse a)
  member b hb := h.member b (hp.mem_iff.mp hb)
  joined b hb := h.joined b (hp.mem_iff.mp hb)
  start b hb := h.start b (hp.mem_iff.mp hb)
  unfed b hb := h.unfed b (hp.mem_iff.mp hb)

theorem Forest.dividedBy (hf : t.Forest) {bs : BranchList} (hbs : t.decompose = .ok bs) :
    t.DividedBy bs.branches := by
  rcases hf.decompose_cases with ⟨-, id, first, second, herr⟩ | ⟨hno, hok⟩
  · rw [herr] at hbs
    cases hbs
  · rw [hok] at hbs
    cases hbs
    exact (hf.dividedBy_starts hno).of_perm (perm_starts t)

/-! ## The chains of one number -/

namespace DividedBy

variable {bs : BranchList} {id : Int32}

theorem nodup_chains (h : t.DividedBy bs.branches) (id : Int32) :
    ((bs.chains id).flatMap fun b => b.walk t).Nodup :=
  h.once.sublist (List.filter_sublist.flatMap _)

theorem mem_chains (h : t.DividedBy bs.branches) (hid : id ≠ inactiveBranch) :
    a ∈ ((bs.chains id).flatMap fun b => b.walk t) ↔
      ∃ s, t.get? a = some s ∧ s.branchId = id := by
  simp only [List.mem_flatMap, BranchList.chains, List.mem_filter, beq_iff_eq]
  constructor
  · rintro ⟨b, ⟨hb, hbid⟩, ha⟩
    obtain ⟨s, hs, hsid⟩ := h.member b hb a ha
    exact ⟨s, hs, hsid.trans hbid⟩
  · rintro ⟨s, hs, hsid⟩
    have hactive : s.active = true := bne_iff_ne.mpr (hsid ▸ hid)
    obtain ⟨b, hb, ha⟩ := List.mem_flatMap.mp ((h.inUse a).mpr ⟨s, hs, hactive⟩)
    obtain ⟨s', hs', hs'id⟩ := h.member b hb a ha
    rw [hs] at hs'
    cases hs'
    exact ⟨b, ⟨hb, hs'id.symm.trans hsid⟩, ha⟩

theorem branchId_ne (h : t.DividedBy bs.branches) (hb : branch ∈ bs.branches) :
    branch.branchId ≠ inactiveBranch := by
  have hstart := List.mem_of_head? (h.start branch hb)
  obtain ⟨s, hs, hactive⟩ := (h.inUse branch.start).mp (List.mem_flatMap.mpr ⟨branch, hb, hstart⟩)
  obtain ⟨s', hs', hid⟩ := h.member branch hb branch.start hstart
  rw [hs] at hs'
  cases hs'
  rw [← hid]
  exact bne_iff_ne.mp hactive

/-- The numbers of the chains and the one that is not in use are all there are. -/
theorem mem_numbers (h : t.DividedBy bs.branches) (hs : t.get? a = some s) :
    s.branchId ∈ bs.numbers ++ [inactiveBranch] := by
  rw [List.mem_append, List.mem_singleton, or_iff_not_imp_right]
  intro hid
  obtain ⟨b, hb, -⟩ := List.mem_flatMap.mp ((h.mem_chains hid).mpr ⟨s, hs, rfl⟩)
  obtain ⟨hb, hbid⟩ := List.mem_filter.mp hb
  exact BranchList.mem_numbers.mpr ⟨b, hb, beq_iff_eq.mp hbid⟩

theorem nodup_numbers (h : t.DividedBy bs.branches) :
    (bs.numbers ++ [inactiveBranch]).Nodup := by
  rw [List.nodup_append]
  refine ⟨nodup_eraseDups _, List.nodup_singleton _, fun id hid id' hid' => ?_⟩
  obtain ⟨b, hb, rfl⟩ := BranchList.mem_numbers.mp hid
  rw [List.mem_singleton.mp hid']
  exact h.branchId_ne hb

end DividedBy

/-! ## Decomposing what has been linked -/

/-- Decomposing a table that has just been linked fails at forks only, and otherwise
divides the segments in use among chains. -/
theorem decompose_linked {u : SegmentTable} (h : (ofRows rows).linkAll = (.ok n, u)) :
    ((∃ bs, u.decompose = .ok bs) ↔ ¬ u.Forks) ∧
    (∀ e, u.decompose = .error e → ∃ id first second,
      e = .ambiguousBranchStart id first second) ∧
    ∀ bs, u.decompose = .ok bs → u.DividedBy bs.branches := by
  have hf := forest_of_linkAll (sound_ofRows rows) h
  rcases hf.decompose_cases with ⟨hforks, id, first, second, herr⟩ | ⟨hno, hok⟩
  · rw [herr]
    refine ⟨⟨?_, fun hno => absurd hforks hno⟩, ?_, ?_⟩
    · rintro ⟨bs, hbs⟩; cases hbs
    · rintro e he; cases he; exact ⟨id, first, second, rfl⟩
    · rintro bs hbs; cases hbs
  · rw [hok]
    refine ⟨⟨fun _ => hno, fun _ => ⟨_, rfl⟩⟩, ?_, ?_⟩
    · rintro e he; cases he
    · rintro bs hbs
      cases hbs
      exact (hf.dividedBy_starts hno).of_perm (perm_starts u)

/-- One number may name several chains: two entries into the main bore, and a third
stretch of branch 1 that drains into a lateral. -/
theorem decompose_linked_reused_number :
    ∃ u bs, (ofRows [⟨1, 0, 1, {}⟩, ⟨2, 1, 1, {}⟩, ⟨3, 0, 1, {}⟩, ⟨4, 3, 1, {}⟩,
      ⟨5, 4, 2, {}⟩, ⟨6, 5, 1, {}⟩, ⟨7, 0, 0, {}⟩]).linkAll = (.ok 4, u) ∧
      u.decompose = .ok bs ∧ bs.length = 4 ∧ u.DividedBy bs.branches := by
  have hlink : ∀ t : SegmentTable, t.linkAll.1 = .ok 4 → t.linkAll = (.ok 4, t.linkAll.2) :=
    fun t h => Prod.ext h rfl
  have h := hlink (ofRows [⟨1, 0, 1, {}⟩, ⟨2, 1, 1, {}⟩, ⟨3, 0, 1, {}⟩, ⟨4, 3, 1, {}⟩,
    ⟨5, 4, 2, {}⟩, ⟨6, 5, 1, {}⟩, ⟨7, 0, 0, {}⟩]) (by decide +kernel)
  have hbs : (ofRows [⟨1, 0, 1, {}⟩, ⟨2, 1, 1, {}⟩, ⟨3, 0, 1, {}⟩, ⟨4, 3, 1, {}⟩,
    ⟨5, 4, 2, {}⟩, ⟨6, 5, 1, {}⟩, ⟨7, 0, 0, {}⟩]).linkAll.2.decompose =
      .ok (.ofBranches [⟨1, 1⟩, ⟨1, 3⟩, ⟨1, 5⟩, ⟨2, 4⟩]) := by decide +kernel
  exact ⟨_, _, h, hbs, rfl, (decompose_linked h).2.2 _ hbs⟩

end SegmentTable

end Wellbore
