import Mathlib.Data.List.Nodup
import Wellbore.Proofs.Segment.Forest
import Wellbore.Branch

/-!
# Every segment in use is reached from a start

A start is a segment in use that no member of its own branch drains into. Going up
against the links of one branch must come to one: every step up is one step
further off the end, and in a forest nothing is as far off as the table is long.
So every branch number in use has a start, and the chains of the starts meet every
segment in use.

Two chains of one branch can only meet at a fork. Neither start can lie on the
chain of the other, because whatever leads to it would feed it.
-/

namespace Wellbore

namespace SegmentTable

open Slot (EndsIn Ends Leads)

variable {t : SegmentTable} {a b : Slot} {s : Segment} {id : Int32} {branch : Branch}

/-! ## Links within one branch -/

theorem nextInBranch?_eq_some : t.nextInBranch? id a = some b ↔
    t.outletSlot? a = some b ∧ ∃ o, t.get? b = some o ∧ o.branchId = id := by
  rw [nextInBranch?, Option.filter_eq_some_iff, Option.any_eq_true]
  simp only [beq_iff_eq]

theorem outletSlot?_of_nextInBranch? (h : t.nextInBranch? id a = some b) :
    t.outletSlot? a = some b :=
  (nextInBranch?_eq_some.mp h).1

theorem Sound.nextInBranch?_lt (hs : t.Sound) (h : t.nextInBranch? id a = some b) :
    b < t.size :=
  hs.outletSlot?_lt (outletSlot?_of_nextInBranch? h)

theorem Forest.ends_inBranch (hf : t.Forest) (ha : a < t.size) :
    Ends (t.nextInBranch? id) a :=
  (hf.ends ha).of_fewer fun _ _ => outletSlot?_of_nextInBranch?

theorem Forest.endsIn_inBranch_lt (hf : t.Forest) (id : Int32) (ha : a < t.size) :
    ∃ k, k < t.size ∧ EndsIn (t.nextInBranch? id) k a := by
  obtain ⟨k, hk⟩ : Ends (t.nextInBranch? id) a := hf.ends_inBranch ha
  exact ⟨k, hk.lt_size ha fun _ _ => hf.sound.nextInBranch?_lt, hk⟩

/-- Whatever a branch leads to is a member of it. -/
theorem branchId_of_leads (h : Leads (t.nextInBranch? id) a b)
    (ha : ∃ s, t.get? a = some s ∧ s.branchId = id) :
    ∃ s, t.get? b = some s ∧ s.branchId = id :=
  h.induct (P := fun x => ∃ s, t.get? x = some s ∧ s.branchId = id) ha
    fun _ _ _ hstep => (nextInBranch?_eq_some.mp hstep).2

/-! ## Starts -/

theorem mem_activeEntries :
    (a, s) ∈ t.activeEntries ↔ t.get? a = some s ∧ s.active = true := by
  rw [activeEntries, List.mem_filter, mem_entries]

theorem isFed_iff : t.isFed b = true ↔ ∃ a s, t.get? a = some s ∧ s.active = true ∧
    t.nextInBranch? s.branchId a = some b := by
  simp only [isFed, List.any_eq_true, Prod.exists, mem_activeEntries, Bool.and_eq_true,
    decide_eq_true_eq, Option.any_eq_true, beq_iff_eq, nextInBranch?_eq_some]
  constructor
  · rintro ⟨a, s, ⟨ha, hact⟩, hout, ho⟩
    exact ⟨a, s, ha, hact, (outletSlot?_of_get? ha).trans hout, ho⟩
  · rintro ⟨a, s, ha, hact, hout, ho⟩
    exact ⟨a, s, ⟨ha, hact⟩, (outletSlot?_of_get? ha).symm.trans hout, ho⟩

theorem mem_starts : branch ∈ t.starts ↔
    (∃ s, t.get? branch.start = some s ∧ s.active = true ∧ s.branchId = branch.branchId) ∧
      t.isFed branch.start = false := by
  obtain ⟨id, start⟩ := branch
  simp only [starts, List.mem_map, List.mem_filter, Prod.exists, mem_activeEntries,
    Bool.not_eq_true', Branch.mk.injEq]
  constructor
  · rintro ⟨a, s, ⟨⟨ha, hact⟩, hfed⟩, rfl, rfl⟩
    exact ⟨⟨s, ha, hact, rfl⟩, hfed⟩
  · rintro ⟨⟨s, ha, hact, rfl⟩, hfed⟩
    exact ⟨start, s, ⟨⟨ha, hact⟩, hfed⟩, rfl, rfl⟩

/-- The branch begins at a segment in use of its number, which no other segment in use of its
number drains into. -/
def StartsBranch (t : SegmentTable) (branch : Branch) : Prop :=
  (∃ s, t.get? branch.start = some s ∧ s.active = true ∧ s.branchId = branch.branchId) ∧
    ∀ a r, t.get? a = some r → r.active = true → r.branchId = branch.branchId →
      r.outlet ≠ some branch.start

theorem mem_starts_iff : branch ∈ t.starts ↔ t.StartsBranch branch := by
  rw [mem_starts, StartsBranch]
  refine and_congr_right ?_
  rintro ⟨s, hs, -, hid⟩
  rw [← Bool.not_eq_true, isFed_iff]
  constructor
  · intro hno a r ha hact hrid hout
    exact hno ⟨a, r, ha, hact, nextInBranch?_eq_some.mpr
      ⟨(outletSlot?_of_get? ha).trans hout, s, hs, hid.trans hrid.symm⟩⟩
  · rintro hno ⟨a, r, ha, hact, hstep⟩
    obtain ⟨hout, o, ho, hoid⟩ := nextInBranch?_eq_some.mp hstep
    rw [hs, Option.some.injEq] at ho
    rw [← ho, hid] at hoid
    exact hno a r ha hact hoid.symm ((outletSlot?_of_get? ha).symm.trans hout)

theorem mem_branchIds :
    id ∈ t.branchIds ↔ ∃ a s, t.get? a = some s ∧ s.active = true ∧ s.branchId = id := by
  simp only [branchIds, List.mem_eraseDups, List.mem_map, Prod.exists, mem_activeEntries,
    and_assoc]

theorem branchId_mem_branchIds (h : branch ∈ t.starts) : branch.branchId ∈ t.branchIds := by
  obtain ⟨⟨s, hs, hact, hid⟩, -⟩ := mem_starts.mp h
  exact mem_branchIds.mpr ⟨_, s, hs, hact, hid⟩

/-- The starts are listed in the order of their rows. -/
theorem pairwise_starts (t : SegmentTable) :
    (t.starts.map Branch.start).Pairwise fun a b => a < b := by
  rw [starts, List.map_map, activeEntries]
  exact List.pairwise_map.mpr
    ((pairwise_entries t).sublist (List.filter_sublist.trans List.filter_sublist))

/-- No slot starts two branches. -/
theorem nodup_starts : (t.starts.map Branch.start).Nodup :=
  (pairwise_starts t).imp fun hlt => Nat.ne_of_lt hlt

/-! ## Going up -/

/-- A segment in use lies on the chain of a start of its branch. -/
theorem Forest.exists_start (hf : t.Forest) (ha : t.get? a = some s)
    (hact : s.active = true) :
    ∃ branch ∈ t.starts, branch.branchId = s.branchId ∧
      Leads (t.nextInBranch? s.branchId) branch.start a := by
  obtain ⟨k, hk⟩ : Ends (t.nextInBranch? s.branchId) a := hf.ends_inBranch (get?_lt ha)
  -- each step up is one step further off the end, and nothing is further off than the size
  induction hroom : t.size - k generalizing a k s with
  | zero =>
      have := hk.lt_size (get?_lt ha) fun _ _ => hf.sound.nextInBranch?_lt
      omega
  | succ n ih =>
      cases hfed : t.isFed a with
      | false =>
          exact ⟨⟨s.branchId, a⟩, mem_starts.mpr ⟨⟨s, ha, hact, rfl⟩, hfed⟩, rfl, .refl⟩
      | true =>
          obtain ⟨c, r, hc, hcact, hstep⟩ := isFed_iff.mp hfed
          obtain ⟨o, ho, hbranch⟩ := (nextInBranch?_eq_some.mp hstep).2
          rw [ha] at ho
          cases ho
          rw [hbranch] at hk ⊢
          obtain ⟨start, hmem, hid, hleads⟩ := ih hc hcact (k + 1) (.there hstep hk) (by omega)
          exact ⟨start, hmem, hid, hleads.tail hstep⟩

/-- Whatever a start leads to within its branch is in use like the start. -/
theorem active_of_leads (h : branch ∈ t.starts)
    (ha : Leads (t.nextInBranch? branch.branchId) branch.start a) :
    ∃ s, t.get? a = some s ∧ s.branchId = branch.branchId ∧ s.active = true := by
  obtain ⟨⟨s, hs, hact, hid⟩, _⟩ := mem_starts.mp h
  obtain ⟨r, hr, hrid⟩ := branchId_of_leads ha ⟨s, hs, hid⟩
  refine ⟨r, hr, hrid, ?_⟩
  rw [← hact, Segment.active, Segment.active, hrid, hid]

/-- Nothing in use leads to a start within its branch. -/
theorem not_leads_to_start {branch' : Branch} (h : branch ∈ t.starts) (h' : branch' ∈ t.starts)
    (hne : branch.start ≠ branch'.start) :
    ¬ Leads (t.nextInBranch? branch.branchId) branch.start branch'.start := by
  intro hleads
  obtain ⟨_, hfed⟩ := mem_starts.mp h'
  rcases Relation.ReflTransGen.cases_tail hleads with heq | ⟨c, hc, hstep⟩
  · exact hne heq.symm
  · obtain ⟨r, hr, hid, hact⟩ := active_of_leads h hc
    rw [isFed_iff.mpr ⟨c, r, hr, hact, by rw [hid]; exact hstep⟩] at hfed
    cases hfed

end SegmentTable

end Wellbore
