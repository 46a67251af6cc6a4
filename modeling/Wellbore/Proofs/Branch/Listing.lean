import Mathlib.Data.Nat.Find
import Mathlib.Order.Bounds.Basic
import Wellbore.Proofs.Branch.Partition
import Wellbore.Proofs.Segment.Calls

/-!
# The order in which branches are listed

The starts of a table come in the order of their rows, and a lateral may start in a row
before the deeper segments of the bore it leaves. Branches are listed by number all the
same, and the numbers in the order in which any of their segments comes up first, start
or not; only the chains of one number are left in the order of their starts.

Looking a number up finds the first of its chains, for the index is made of the sorted list.
Since decomposing makes sure that each number in use has a start, a number is found exactly
when it is in use.
-/

namespace Wellbore

namespace BranchList

variable {bs : BranchList} {id : Int32}

theorem chains_ne_nil : bs.chains id ≠ [] ↔ id ∈ bs.numbers := by
  rw [chains, ne_eq, List.filter_eq_nil_iff, mem_numbers]
  push Not
  simp only [beq_iff_eq]

end BranchList

namespace SegmentTable

variable {t : SegmentTable} {bs : BranchList} {id : Int32}

/-- The rows that hold a segment in use of the number. -/
def rowsInUse (t : SegmentTable) (id : Int32) : Set Slot :=
  {a | ∃ s, t.get? a = some s ∧ s.active = true ∧ s.branchId = id}

/-- The branches of a table as they are listed: one for each start, collected by number, the
numbers in the order of their first rows in use and the chains of a number in the order of
their starts. A lookup finds the first chain of its number. -/
structure ListedBy (t : SegmentTable) (bs : BranchList) : Prop where
  starts : ∀ b, b ∈ bs.branches ↔ t.StartsBranch b
  once : (bs.branches.map Branch.start).Nodup
  byNumber : bs.branches = bs.numbers.flatMap bs.chains
  numbersByRow : bs.numbers.Pairwise fun id id' => ∃ a a',
    IsLeast (t.rowsInUse id) a ∧ IsLeast (t.rowsInUse id') a' ∧ a < a'
  chainsByRow : ∀ id, ((bs.chains id).map Branch.start).Pairwise fun a b => a < b
  has : ∀ id, bs.has id = true ↔ (t.rowsInUse id).Nonempty
  find : ∀ id, bs.find? id = (bs.chains id).head?
  start : ∀ id, bs.start? id = (bs.chains id).head?.map Branch.start
  missing : ∀ id, (bs.find? id = none ↔ bs.chains id = []) ∧
    (bs.start? id = none ↔ bs.chains id = [])

/-! ## Numbers in the order of their first rows -/

/-- Before each row in use of a number comes one of every number that is listed before it. -/
theorem pairwise_branchIds (t : SegmentTable) : t.branchIds.Pairwise fun id id' =>
    ∀ b ∈ t.rowsInUse id', ∃ a ∈ t.rowsInUse id, a < b := by
  have hsorted : t.activeEntries.Pairwise fun p q => p.1 < q.1 :=
    (pairwise_entries t).sublist List.filter_sublist
  have hfirst : t.branchIds.Pairwise fun id id' => ∀ q ∈ t.activeEntries,
      q.2.branchId = id' → ∃ p ∈ t.activeEntries, p.2.branchId = id ∧ p.1 < q.1 :=
    pairwise_eraseDups_map hsorted
  refine hfirst.imp ?_
  rintro id id' hbefore b ⟨s, hb, hact, hid⟩
  obtain ⟨⟨a, r⟩, har, hrid, hlt⟩ := hbefore (b, s) (mem_activeEntries.mpr ⟨hb, hact⟩) hid
  obtain ⟨ha, hract⟩ := mem_activeEntries.mp har
  exact ⟨a, ⟨r, ha, hract, hrid⟩, hlt⟩

theorem exists_first_row (h : id ∈ t.branchIds) : ∃ a, IsLeast (t.rowsInUse id) a := by
  classical
  have hrow : ∃ a, a ∈ t.rowsInUse id := mem_branchIds.mp h
  exact ⟨Nat.find hrow, Nat.find_spec hrow, fun _ => Nat.find_min' hrow⟩

/-! ## The branches of a table -/

section
variable (h : t.decompose = .ok bs)
include h

/-- The chains of a number are its starts, in their order. -/
theorem chains_of_decompose (id : Int32) :
    bs.chains id = t.starts.filter fun b => b.branchId == id := by
  obtain ⟨-, -, -, rfl⟩ := decompose_eq_ok.mp h
  by_cases hid : id ∈ t.branchIds
  · exact filter_flatMap_filter (nodup_eraseDups _) hid
  · have hnone : (t.starts.filter fun b => b.branchId == id) = [] := by
      rw [List.filter_eq_nil_iff]
      intro b hb hbid
      exact hid (beq_iff_eq.mp hbid ▸ branchId_mem_branchIds hb)
    have hperm := (perm_starts t).filter fun b => b.branchId == id
    rw [hnone] at hperm
    rw [hnone]
    exact hperm.eq_nil

theorem numbers_of_decompose : bs.numbers = t.branchIds := by
  obtain ⟨-, hstarted, -, rfl⟩ := decompose_eq_ok.mp h
  refine eraseDups_map_flatMap (nodup_eraseDups _) (fun id hid => ?_) fun id _ b hb => ?_
  · obtain ⟨b, hb, hbid⟩ := hstarted id hid
    exact List.ne_nil_of_mem (List.mem_filter.mpr ⟨hb, beq_iff_eq.mpr hbid⟩)
  · exact beq_iff_eq.mp (List.mem_filter.mp hb).2

end

/-- However a table came to be, when it is decomposed its branches are listed by number. -/
theorem listedBy_of_decompose (h : t.decompose = .ok bs) : t.ListedBy bs := by
  have hperm : bs.branches.Perm t.starts := by
    obtain ⟨-, -, -, rfl⟩ := decompose_eq_ok.mp h
    exact perm_starts t
  have hindexed : bs.Indexed := by
    obtain ⟨-, -, -, rfl⟩ := decompose_eq_ok.mp h
    exact BranchList.indexed_ofBranches _
  constructor
  case starts => exact fun b => hperm.mem_iff.trans mem_starts_iff
  case once => exact (hperm.map Branch.start).nodup_iff.mpr nodup_starts
  case byNumber =>
    rw [numbers_of_decompose h, List.flatMap_congr fun id _ => chains_of_decompose h id]
    obtain ⟨-, -, -, rfl⟩ := decompose_eq_ok.mp h
    rfl
  case numbersByRow =>
    rw [numbers_of_decompose h]
    refine (pairwise_branchIds t).imp_of_mem fun hid hid' hbefore => ?_
    obtain ⟨a, ha⟩ := exists_first_row hid
    obtain ⟨b, hb⟩ := exists_first_row hid'
    obtain ⟨c, hc, hlt⟩ := hbefore b hb.1
    exact ⟨a, b, ha, hb, Nat.lt_of_le_of_lt (ha.2 hc) hlt⟩
  case chainsByRow =>
    intro id
    rw [chains_of_decompose h]
    exact (pairwise_starts t).sublist (List.filter_sublist.map _)
  case has =>
    intro id
    rw [hindexed.has_iff, BranchList.chains_ne_nil, numbers_of_decompose h, mem_branchIds]
    rfl
  case find => exact fun id => hindexed.find?_eq_head?
  case start => exact fun id => hindexed.start?_eq_head?
  case missing =>
    intro id
    rw [hindexed.start?_eq_head?, hindexed.find?_eq_head?, Option.map_eq_none_iff,
      List.head?_eq_none_iff]
    exact ⟨.rfl, .rfl⟩

/-- Two entries into the main bore and two laterals. The first number after that of the bore is
3, but its start is in a later row than that of 2. -/
def twoLaterals : List TableCall :=
  [.insert ⟨1, 0, 1, {}⟩, .insert ⟨2, 1, 3, {}⟩, .insert ⟨3, 1, 2, {}⟩, .insert ⟨4, 2, 3, {}⟩,
    .insert ⟨5, 0, 1, {}⟩, .insert ⟨6, 0, 0, {}⟩]

theorem listedBy_of_decompose_twoLaterals :
    ∃ t bs, (ofCalls twoLaterals).linkAll = (.ok 3, t) ∧ t.decompose = .ok bs ∧
      t.ListedBy bs ∧ bs.numbers = [1, 3, 2] ∧
      bs.branches = [⟨1, 0⟩, ⟨1, 4⟩, ⟨3, 3⟩, ⟨2, 2⟩] := by
  have h : (ofCalls twoLaterals).linkAll = (.ok 3, (ofCalls twoLaterals).linkAll.2) :=
    linkAll_eq (by decide +kernel)
  have hbs : (ofCalls twoLaterals).linkAll.2.decompose =
      .ok (.ofBranches [⟨1, 0⟩, ⟨1, 4⟩, ⟨3, 3⟩, ⟨2, 2⟩]) := by decide +kernel
  exact ⟨_, _, h, hbs, listedBy_of_decompose hbs, by decide, rfl⟩

end SegmentTable

end Wellbore
