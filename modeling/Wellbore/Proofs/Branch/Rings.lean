import Wellbore.Proofs.Branch.Partition
import Wellbore.Proofs.Loops
import Wellbore.Proofs.Segment.Calls

/-!
# What decomposing leaves out

Decomposing asks of a table that every outlet is linked, that every branch number in use
has a start, and that no two chains meet. A table that could not be linked as a forest may
pass all three. The segments that no chain reaches then are those of rings: a branch leads
from them round to themselves, and nothing else of the branch leads to them. A ring has no
start, but another chain of the same number has one, and the check for a start is made
once for each number.

Everything else is on exactly one chain. Going up within a branch from a segment that is
not on a ring comes to a start; and a chain that was cut off within a loop has met the
whole table, or it would have met a slot twice.
-/

namespace Wellbore

namespace SegmentTable

open Slot (Leads Loops)

variable {t : SegmentTable} {a : Slot} {s : Segment} {branch : Branch} {bs : BranchList}

/-- The branch of the segment leads from it back to it, and what leads to it within the
branch is on the same loop. -/
def OnRing (t : SegmentTable) (a : Slot) : Prop :=
  ∃ s, t.get? a = some s ∧ Loops (t.nextInBranch? s.branchId) a ∧
    ∀ x r, t.get? x = some r → r.branchId = s.branchId →
      Leads (t.nextInBranch? s.branchId) x a → Leads (t.nextInBranch? s.branchId) a x

/-- What leads to a segment within its branch, as far as it is of the branch. -/
def Above (t : SegmentTable) (id : Int32) (a x : Slot) : Prop :=
  (∃ r, t.get? x = some r ∧ r.branchId = id) ∧ Leads (t.nextInBranch? id) x a

/-! ## Going up -/

/-- Above a segment in use that is on no ring there is a start. -/
theorem exists_start_of_not_onRing (ha : t.get? a = some s) (hact : s.active = true)
    (hring : ¬ t.OnRing a) : ∃ branch ∈ t.starts, branch.branchId = s.branchId ∧
      Leads (t.nextInBranch? s.branchId) branch.start a := by
  by_contra hnone
  have hfed : ∀ x, t.Above s.branchId a x →
      ∃ y, t.Above s.branchId a y ∧ t.nextInBranch? s.branchId y = some x := by
    intro x hx
    obtain ⟨⟨r, hr, hid⟩, hxa⟩ := hx
    have hract : r.active = true := by
      rw [Segment.active, hid]
      exact hact
    cases hfed : t.isFed x with
    | false => exact absurd ⟨⟨_, x⟩, mem_starts.mpr ⟨⟨r, hr, hract, hid⟩, hfed⟩, rfl, hxa⟩ hnone
    | true =>
        obtain ⟨y, q, hy, -, hstep⟩ := isFed_iff.mp hfed
        obtain ⟨o, ho, hoid⟩ := (nextInBranch?_eq_some.mp hstep).2
        rw [hr, Option.some.injEq] at ho
        rw [← ho, hid] at hoid
        rw [← hoid] at hstep
        exact ⟨y, ⟨⟨q, hy, hoid.symm⟩, .head hstep hxa⟩, hstep⟩
  have hlt : ∀ x, t.Above s.branchId a x → x < t.size := by
    intro x hx
    obtain ⟨⟨r, hr, -⟩, -⟩ := hx
    exact get?_lt hr
  have hloops : ∀ x, t.Above s.branchId a x → Loops (t.nextInBranch? s.branchId) x :=
    fun x hx => Slot.loops_of_fed hlt hfed hx
  refine hring ⟨s, ha, hloops a ⟨⟨s, ha, rfl⟩, .refl⟩, fun x r hr hid hxa => ?_⟩
  exact (hloops x ⟨⟨r, hr, hid⟩, hxa⟩).leads_back hxa

/-- No chain of a start comes to a ring. -/
theorem not_leads_to_ring (hb : branch ∈ t.starts) (hring : t.OnRing a) :
    ¬ Leads (t.nextInBranch? branch.branchId) branch.start a := by
  intro hleads
  obtain ⟨s, ha, hloops, hsealed⟩ := hring
  obtain ⟨r, hr, hrid, -⟩ := active_of_leads hb hleads
  rw [ha, Option.some.injEq] at hr
  rw [hr, hrid] at hloops hsealed
  obtain ⟨⟨q, hq, -, hqid⟩, hfed⟩ := mem_starts.mp hb
  -- the start would be on the loop too, and what comes before it there feeds it
  have hstart := hloops.of_leads (hsealed branch.start q hq hqid hleads)
  obtain ⟨c, hc, hstep⟩ := Relation.TransGen.tail'_iff.mp hstart
  obtain ⟨r', hr', hid', hact'⟩ := active_of_leads hb hc
  rw [isFed_iff.mpr ⟨c, r', hr', hact', by rw [hid']; exact hstep⟩] at hfed
  cases hfed

/-! ## Members -/

theorem Sound.mem_walk_iff (hs : t.Sound) (hb : branch ∈ t.starts)
    (hnodup : (branch.walk t).Nodup) :
    a ∈ branch.walk t ↔ Leads (t.nextInBranch? branch.branchId) branch.start a :=
  ⟨Slot.leads_of_mem_walk, Slot.mem_walk_of_nodup hnodup (start_lt hb)
    fun _ _ => hs.nextInBranch?_lt⟩

theorem Sound.existsUnique_walk_iff (hs : t.Sound) (hbs : t.decompose = .ok bs)
    (ha : t.get? a = some s) (hact : s.active = true) :
    (∃! b, b ∈ bs.branches ∧ a ∈ b.walk t) ↔ ¬ t.OnRing a := by
  obtain ⟨-, -, hnodup, rfl⟩ := decompose_eq_ok.mp hbs
  simp only [BranchList.branches_ofBranches, (perm_starts t).mem_iff]
  obtain ⟨hwalk, -⟩ := List.nodup_flatMap.mp hnodup
  constructor
  · rintro ⟨b, ⟨hb, hab⟩, -⟩ hring
    exact not_leads_to_ring hb hring (Slot.leads_of_mem_walk hab)
  · intro hring
    obtain ⟨b, hb, hid, hleads⟩ := exists_start_of_not_onRing ha hact hring
    rw [← hid] at hleads
    have hab := (hs.mem_walk_iff hb (hwalk b hb)).mpr hleads
    exact ⟨b, ⟨hb, hab⟩, fun b' hb' => eq_of_mem_walks hnodup hb'.1 hb hb'.2 hab⟩

/-! ## Any run of calls -/

/-- Whatever was called, and however it ended: in a table that can be decomposed no segment
is on two chains, and the segments in use that are on none are those on rings. -/
theorem decompose_ofCalls {calls : List TableCall}
    (hbs : (ofCalls calls).decompose = .ok bs) :
    (bs.branches.flatMap fun b => b.walk (ofCalls calls)).Nodup ∧
    ∀ a s, (ofCalls calls).get? a = some s → s.active = true →
      ((∃! b, b ∈ bs.branches ∧ a ∈ b.walk (ofCalls calls)) ↔ ¬ (ofCalls calls).OnRing a) := by
  refine ⟨?_, fun a s ha hact => (sound_ofCalls calls).existsUnique_walk_iff hbs ha hact⟩
  obtain ⟨-, -, hnodup, rfl⟩ := decompose_eq_ok.mp hbs
  exact ((perm_starts _).flatMap_right fun b => b.walk (ofCalls calls)).nodup_iff.mpr hnodup

/-- A lateral whose number is also that of a ring, and a loop of two branches; the links are
left behind by a linking that fails. -/
def ringCalls : List TableCall :=
  [.insert ⟨1, 0, 1, {}⟩, .insert ⟨2, 1, 1, {}⟩, .insert ⟨3, 4, 2, {}⟩, .insert ⟨4, 3, 2, {}⟩,
    .insert ⟨5, 1, 2, {}⟩, .insert ⟨6, 7, 3, {}⟩, .insert ⟨7, 6, 4, {}⟩, .linkAll]

theorem decompose_ofCalls_ringCalls :
    (ofCalls ringCalls.dropLast).linkAll.1 = .error (.topology (.outletCycle 3 7)) ∧
    (ofCalls ringCalls).decompose = .ok (.ofBranches [⟨1, 1⟩, ⟨2, 4⟩, ⟨3, 5⟩, ⟨4, 6⟩]) ∧
    (ofCalls ringCalls).OnRing 2 ∧ ¬ (ofCalls ringCalls).OnRing 5 := by
  have hbs : (ofCalls ringCalls).decompose =
      .ok (.ofBranches [⟨1, 1⟩, ⟨2, 4⟩, ⟨3, 5⟩, ⟨4, 6⟩]) := by decide +kernel
  have hrow : ∀ a, a < 7 → ((ofCalls ringCalls).get? a).any Segment.active = true := by
    decide +kernel
  obtain ⟨-, hring⟩ := decompose_ofCalls hbs
  obtain ⟨s, hs, hact⟩ := (Option.any_eq_true _ _).mp (hrow 2 (by decide))
  obtain ⟨r, hr, hact'⟩ := (Option.any_eq_true _ _).mp (hrow 5 (by decide))
  refine ⟨by decide +kernel, hbs, ?_, ?_⟩
  · by_contra hno
    obtain ⟨b, ⟨hb, hmem⟩, -⟩ := (hring 2 s hs hact).mpr hno
    have hwalks : ∀ b ∈ [Branch.mk 1 1, ⟨2, 4⟩, ⟨3, 5⟩, ⟨4, 6⟩],
        2 ∉ b.walk (ofCalls ringCalls) := by decide +kernel
    exact hwalks b hb hmem
  · have hwalks : ∀ b ∈ [Branch.mk 1 1, ⟨2, 4⟩, ⟨3, 5⟩, ⟨4, 6⟩],
        5 ∈ b.walk (ofCalls ringCalls) → b = ⟨3, 5⟩ := by decide +kernel
    refine (hring 5 r hr hact').mp ⟨⟨3, 5⟩, ⟨by decide, by decide +kernel⟩, ?_⟩
    exact fun b hb => hwalks b hb.1 hb.2

/-- A ring beside a chain of the same number is on no branch, and the table is decomposed
all the same. -/
theorem ring_dropped :
    let t := ofCalls [.insert ⟨1, 0, 1, {}⟩, .insert ⟨2, 3, 1, {}⟩, .insert ⟨3, 2, 1, {}⟩,
      .linkAll]
    t.slotOf? wellheadOutlet = none ∧ t.decompose = .ok (.ofBranches [⟨1, 0⟩]) ∧
      (t.get? 1).any Segment.active = true ∧ 1 ∉ (Branch.mk 1 0).walk t := by
  decide +kernel

end SegmentTable

end Wellbore
