import Wellbore.Proofs.Branch.Junctions
import Wellbore.Proofs.Segment.Relinking

/-!
# Branches of a table that grows

A branch is a start and a number, and whatever else is asked about it is walked out in the
table as it is at that moment. Rows that come later may drain into the branch, go on above its
start, or run in circles among themselves, and a walk is given room for all of them. None of it
shows in a branch that was found before.

The reason is that links point one way. What a branch meets lies on the way from its start to
the wellhead, and that way was complete: every step of it was linked, and a link is never moved.
The only open end is the last segment, the one at the wellhead. It could still be linked to a
segment with the wellhead's number, so there must be none.
-/

namespace Wellbore

namespace SegmentTable

open Slot (EndsIn Leads)

variable {t u : SegmentTable} {a b : Slot} {s : Segment} {id : Int32}

theorem GrowsTo.size_le (hg : t.GrowsTo u) : t.size ≤ u.size := by
  by_contra hlt
  obtain ⟨s, hs⟩ := get?_of_lt (Nat.lt_of_not_le hlt)
  obtain ⟨s', hs', -⟩ := hg _ s hs
  exact Nat.lt_irrefl _ (get?_lt hs')

/-- What a slot leads to was settled when the table was linked. -/
theorem Forest.outletSlot?_of_growsTo (hf : t.Forest) (hg : t.GrowsTo u) (hopen : u.WellheadOpen)
    (ha : a < t.size) : u.outletSlot? a = t.outletSlot? a := by
  obtain ⟨s, hs⟩ := get?_of_lt ha
  obtain ⟨s', hs', hrow, hkept, -⟩ := hg a s hs
  by_cases hwell : s.outletId = wellheadOutlet
  · have hwell' : s'.outletId = wellheadOutlet := by rw [hrow]; exact hwell
    have hnone := hopen a ⟨s', hs', hwell'⟩
    cases hout : s.outlet with
    | none => rw [hnone, outletSlot?_of_get? hs, hout]
    | some b =>
        rw [outletSlot?_of_get? hs', hkept b hout] at hnone
        cases hnone
  · obtain ⟨b, hb⟩ := hf.linked hs hwell
    rw [outletSlot?_of_get? hs', outletSlot?_of_get? hs, hkept b hb, hb]

theorem Forest.nextInBranch?_of_growsTo (hf : t.Forest) (hg : t.GrowsTo u)
    (hopen : u.WellheadOpen) (ha : a < t.size) :
    u.nextInBranch? id a = t.nextInBranch? id a := by
  have hout := hf.outletSlot?_of_growsTo hg hopen ha
  cases hb : t.outletSlot? a with
  | none => rw [nextInBranch?, nextInBranch?, hout, hb, Option.filter_none, Option.filter_none]
  | some b =>
      obtain ⟨o, ho⟩ := get?_of_lt (hf.sound.outletSlot?_lt hb)
      obtain ⟨o', ho', hrow, -⟩ := hg b o ho
      have hid : o'.branchId = o.branchId := by rw [hrow]
      simp [nextInBranch?, hout, hb, Option.filter, ho, ho', hid]

end SegmentTable

namespace Branch

open SegmentTable (ofCalls outletChain_of_lt)

variable {t u : SegmentTable} {bs : BranchList} {b : Branch} {j : Slot}

/-- Both tables show the same chain, drained into the same place, and the same way to the
wellhead. -/
structure SameCourse (b : Branch) (t u : SegmentTable) : Prop where
  walk : b.walk u = b.walk t
  junction : b.junction? u = b.junction? t
  path : b.path u = b.path t

theorem walk_of_growsTo (hf : t.Forest) (hb : b.start < t.size) (hg : t.GrowsTo u)
    (hopen : u.WellheadOpen) : b.walk u = b.walk t := by
  obtain ⟨k, hlt, hk⟩ := hf.endsIn_inBranch_lt b.branchId hb
  have hsame : ∀ n, Slot.walk (u.nextInBranch? b.branchId) n b.start =
      Slot.walk (t.nextInBranch? b.branchId) n b.start := fun n =>
    Slot.walk_congr fun x hx =>
      hf.nextInBranch?_of_growsTo hg hopen (hf.leads_lt (leads_of_inBranch hx) hb)
  show Slot.walk (u.nextInBranch? b.branchId) u.size b.start =
    Slot.walk (t.nextInBranch? b.branchId) t.size b.start
  rw [hsame, hk.walk_eq (Nat.lt_of_lt_of_le hlt hg.size_le) hlt]

theorem path_of_growsTo (hf : t.Forest) (hb : b.start < t.size) (hg : t.GrowsTo u)
    (hopen : u.WellheadOpen) : b.path u = b.path t := by
  obtain ⟨k, hlt, hk⟩ := hf.endsIn_lt hb
  have hsame : ∀ n, Slot.walk u.outletSlot? n b.start = Slot.walk t.outletSlot? n b.start :=
    fun n => Slot.walk_congr fun x hx => hf.outletSlot?_of_growsTo hg hopen (hf.leads_lt hx hb)
  have hroom := hg.size_le
  rw [path, path, outletChain_of_lt hb, outletChain_of_lt (Nat.lt_of_lt_of_le hb hroom), hsame,
    hk.walk_eq (Nat.lt_of_lt_of_le hlt hroom) hlt]

theorem junction?_of_growsTo (hf : t.Forest) (hb : b.start < t.size) (hg : t.GrowsTo u)
    (hopen : u.WellheadOpen) : b.junction? u = b.junction? t := by
  refine Option.ext fun j => ?_
  rw [junction?_eq_some, junction?_eq_some, walk_of_growsTo hf hb hg hopen]
  refine exists_congr fun z => ?_
  by_cases hz : (b.walk t).getLast? = some z
  · have hleads := leads_of_inBranch (Slot.leads_of_mem_walk (List.mem_of_getLast? hz))
    rw [hf.outletSlot?_of_growsTo hg hopen (hf.leads_lt hleads hb)]
    by_cases hj : t.outletSlot? z = some j
    · obtain ⟨o, ho⟩ := SegmentTable.get?_of_lt (hf.sound.outletSlot?_lt hj)
      obtain ⟨o', ho', hrow, -⟩ := hg j o ho
      simp [hj, ho, ho', hrow]
    · simp [hj]
  · simp [hz]

/-- A forest that is built on, and not undermined at the wellhead, keeps its branches. -/
theorem sameCourse_of_growsTo (hf : t.Forest) (hb : b.start < t.size) (hg : t.GrowsTo u)
    (hopen : u.WellheadOpen) : b.SameCourse t u where
  walk := walk_of_growsTo hf hb hg hopen
  junction := junction?_of_growsTo hf hb hg hopen
  path := path_of_growsTo hf hb hg hopen

/-- Whatever is called on a table after it was linked and decomposed, and however the calls end:
the branches that were found keep their course, as long as no segment has the wellhead's
number. -/
theorem sameCourse_afterAll {calls later : List TableCall} {n : Nat}
    (h : (ofCalls calls).linkAll = (.ok n, t)) (hbs : t.decompose = .ok bs)
    (hfree : (t.afterAll later).slotOf? wellheadOutlet = none) (hb : b ∈ bs.branches) :
    b.SameCourse t (t.afterAll later) := by
  have hf := SegmentTable.forest_of_linkAll (SegmentTable.sound_ofCalls calls) h
  have hlt := start_lt_size (hf.dividedBy hbs) hb
  obtain ⟨hsound, hg⟩ := hf.sound.changes (SegmentTable.changes_afterAll t later)
  exact sameCourse_of_growsTo hf hlt hg (hsound.wellheadOpen hfree)

/-- A main bore with a lateral that leaves from its middle. -/
def laterallyDrained : List TableCall :=
  [.insert ⟨1, 0, 1, {}⟩, .insert ⟨2, 1, 1, {}⟩, .insert ⟨3, 2, 1, {}⟩, .insert ⟨4, 2, 2, {}⟩,
    .insert ⟨5, 4, 2, {}⟩]

/-- Rows above the main bore and into the lateral, a number that is taken, a ring, and a segment
in use on one that is not, so that linking fails. -/
def lateRows : List TableCall :=
  [.insert ⟨6, 3, 1, {}⟩, .insert ⟨7, 5, 1, {}⟩, .insert ⟨2, 3, 1, {}⟩, .link 5 2, .link 2 5,
    .insert ⟨8, 9, 2, {}⟩, .insert ⟨9, 8, 2, {}⟩, .insert ⟨10, 4, 0, {}⟩,
    .insert ⟨11, 10, 2, {}⟩, .linkAll]

theorem sameCourse_afterAll_lateRows :
    ∃ t bs, (ofCalls laterallyDrained).linkAll = (.ok 4, t) ∧ t.decompose = .ok bs ∧
      bs.branches = [⟨1, 2⟩, ⟨2, 4⟩] ∧
      (t.afterAll lateRows).linkAll.1 = .error (.topology (.inactiveOutlet 11 10)) ∧
      (t.afterAll lateRows).starts ≠ t.starts ∧
      ∀ b ∈ bs.branches, b.SameCourse t (t.afterAll lateRows) := by
  have hlink : ∀ t : SegmentTable, t.linkAll.1 = .ok 4 → t.linkAll = (.ok 4, t.linkAll.2) :=
    fun t h => Prod.ext h rfl
  have h := hlink (ofCalls laterallyDrained) (by decide +kernel)
  have hbs : (ofCalls laterallyDrained).linkAll.2.decompose =
      .ok (.ofBranches [⟨1, 2⟩, ⟨2, 4⟩]) := by decide +kernel
  refine ⟨_, _, h, hbs, rfl, by decide +kernel, by decide +kernel, fun b hb => ?_⟩
  exact sameCourse_afterAll h hbs (by decide +kernel) hb

/-- Behind a segment that drains into the wellhead there is room for one with its number. -/
example :
    let t := (ofCalls laterallyDrained).linkAll.2
    (Branch.mk 2 4).path t = [4, 3, 1, 0] ∧
      (Branch.mk 2 4).path (t.afterAll [.insert ⟨0, 0, 1, {}⟩, .link 0 5]) = [4, 3, 1, 0, 5] := by
  decide +kernel

end Branch

end Wellbore
