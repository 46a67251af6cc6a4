import Mathlib.Logic.Equiv.Basic
import Wellbore.Proofs.Branch.Moved

/-!
# The order of the rows does not matter

The check for cycles notes what it has seen in the order of the rows, the check for
forks lets chains claim slots in that order, and the branches are listed in it. Still
the order decides nothing but the order of the answer: a permutation of the rows moves
every row to another slot, and everything that is looked at moves along.

Nothing here asks that linking succeeded. A table that was refused has been linked by
number all the same, or not at all, and two tables of one size cut their walks off
alike, so chains that run in circles are moved like the others.
-/

namespace Wellbore

/-- A permutation moves each position to one of its own. -/
theorem exists_injective_of_perm {α : Type} {l l' : List α} (h : l.Perm l') :
    ∃ f : Nat → Nat, Function.Injective f ∧ ∀ i, l[i]? = l'[f i]? := by
  induction h with
  | nil => exact ⟨id, Function.injective_id, fun _ => rfl⟩
  | cons a _ ih =>
      obtain ⟨f, hf, hl⟩ := ih
      refine ⟨fun | 0 => 0 | i + 1 => f i + 1, fun i j hij => ?_, fun i => ?_⟩
      · match i, j with
        | 0, 0 => rfl
        | i + 1, j + 1 => exact congrArg Nat.succ (hf (Nat.succ.inj hij))
      · match i with
        | 0 => rfl
        | i + 1 => exact hl i
  | swap a b l =>
      refine ⟨Equiv.swap 0 1, (Equiv.swap 0 1).injective, fun i => ?_⟩
      match i with
      | 0 => rw [Equiv.swap_apply_left]; rfl
      | 1 => rw [Equiv.swap_apply_right]; rfl
      | i + 2 => rw [Equiv.swap_apply_of_ne_of_ne (by omega) (by omega)]; rfl
  | trans _ _ ih ih' =>
      obtain ⟨f, hf, hl⟩ := ih
      obtain ⟨g, hg, hl'⟩ := ih'
      exact ⟨g ∘ f, hg.comp hf, fun i => (hl i).trans (hl' (f i))⟩

namespace SegmentTable

variable {t u : SegmentTable} {f : Slot → Slot} {rows rows' : List SegmentRow} {bs bs' : BranchList}

/-- Two tables tell the same of every number, and of their branches up to order. -/
structure SameTopology (t u : SegmentTable) : Prop where
  outletId : ∀ id, t.outletIdOf? id = u.outletIdOf? id
  linkCount : ∀ id, t.linkCountOf? id = u.linkCountOf? id
  decomposes : (∃ bs, t.decompose = .ok bs) ↔ ∃ bs, u.decompose = .ok bs
  chains : ∀ bs bs', t.decompose = .ok bs → u.decompose = .ok bs' →
    (bs.branches.map (·.trace t)).Perm (bs'.branches.map (·.trace u))

namespace Carried

/-- What goes wrong in the one table goes wrong where it was moved. -/
theorem decompose_ok (h : Carried f t u) (hok : ∃ bs, u.decompose = .ok bs) :
    ∃ bs, t.decompose = .ok bs := by
  obtain ⟨bs, hok⟩ := hok
  obtain ⟨hlinked, hstarted, hnodup, -⟩ := decompose_eq_ok.mp hok
  refine ⟨_, decompose_eq_ok.mpr ⟨?_, ?_, ?_, rfl⟩⟩
  · rw [unlinked?_eq_none] at hlinked ⊢
    intro a s ha hw
    obtain ⟨s', ha', hrow⟩ := h.get?_move ha
    obtain ⟨b, hb⟩ := hlinked (f a) s' ha' (by rw [hrow]; exact hw)
    have hout := h.outlet a
    rw [outletSlot?_of_get? ha', hb, outletSlot?_of_get? ha] at hout
    obtain ⟨c, hc, -⟩ := Option.map_eq_some_iff.mp hout.symm
    exact ⟨c, hc⟩
  · intro id hid
    obtain ⟨a, s, ha, hact, hid⟩ := mem_branchIds.mp hid
    have hid' : id ∈ u.branchIds := mem_branchIds.mpr ⟨f a, (h.exists_row fun r =>
      r.segment.active = true ∧ r.branchId = id).mpr ⟨s, ha, hact, hid⟩⟩
    obtain ⟨b, hb, hbid⟩ := hstarted _ hid'
    obtain ⟨b', hb', rfl⟩ := h.exists_move hb
    exact ⟨b', hb', hbid⟩
  · exact (List.nodup_map_iff h.inj).mp (h.perm_members.nodup_iff.mp hnodup)

theorem perm_traces (h : Carried f t u) (ht : t.decompose = .ok bs)
    (hu : u.decompose = .ok bs') :
    (bs.branches.map (·.trace t)).Perm (bs'.branches.map (·.trace u)) := by
  obtain ⟨-, -, -, rfl⟩ := decompose_eq_ok.mp ht
  obtain ⟨-, -, -, rfl⟩ := decompose_eq_ok.mp hu
  have hmoved : (t.starts.map (Branch.move f)).map (·.trace u) = t.starts.map (·.trace t) := by
    rw [List.map_map]
    exact List.map_congr_left fun b hb => h.trace_move hb
  have hstarts := h.perm_starts.map (·.trace u)
  rw [hmoved] at hstarts
  exact ((SegmentTable.perm_starts t).map _).trans
    (hstarts.trans ((SegmentTable.perm_starts u).map _).symm)

end Carried

/-- Permuted rows are carried along, however linking ended. -/
theorem LinkedByNumber.exists_carried (ht : t.LinkedByNumber) (hu : u.LinkedByNumber)
    (hp : t.written.Perm u.written) : ∃ f, Carried f t u := by
  obtain ⟨f, hf, hrow⟩ := exists_injective_of_perm hp
  have hnamed : Named t.written ↔ Named u.written :=
    ⟨.of_mem_iff fun _ => hp.mem_iff.symm, .of_mem_iff fun _ => hp.mem_iff⟩
  have hsize : u.size = t.size := by rw [← length_written, ← length_written, hp.length_eq]
  exact ⟨f, (ht.movedBy hu hf hrow hnamed fun r hr _ => hp.mem_iff.mpr hr).carried_of_size hsize⟩

theorem LinkedByNumber.sameTopology (ht : t.LinkedByNumber) (hu : u.LinkedByNumber)
    (hp : t.written.Perm u.written) : SameTopology t u := by
  classical
  have hnamed : Named t.written = Named u.written :=
    propext ⟨.of_mem_iff fun _ => hp.mem_iff.symm, .of_mem_iff fun _ => hp.mem_iff⟩
  obtain ⟨f, hf⟩ := ht.exists_carried hu hp
  obtain ⟨g, hg⟩ := hu.exists_carried ht hp.symm
  constructor
  case outletId =>
    intro id
    refine Option.ext fun x => ?_
    rw [ht.outletIdOf?_eq_some, hu.outletIdOf?_eq_some, hnamed]
    exact exists_congr fun r => and_congr_left fun _ => hp.mem_iff
  case linkCount =>
    intro id
    refine Option.ext fun n => ?_
    rw [ht.linkCountOf?_eq_some, hu.linkCountOf?_eq_some, hnamed, hp.countP_eq]
    exact and_congr_left fun _ => exists_congr fun r => and_congr_left fun _ => hp.mem_iff
  case decomposes => exact ⟨hg.decompose_ok, hf.decompose_ok⟩
  case chains => exact fun bs bs' hbs hbs' => hf.perm_traces hbs hbs'

theorem linkAll_fst_of_perm (hids : (rows.map (·.id)).Nodup) (hp : rows.Perm rows') {n : Nat}
    (h : (ofRows rows).linkAll.1 = .ok n) : (ofRows rows').linkAll.1 = .ok n := by
  have hids' : (rows'.map (·.id)).Nodup := (hp.map _).nodup_iff.mp hids
  have hsegments : (ofRows rows').rows.toList.Perm (ofRows rows).rows.toList := by
    rw [rows_ofRows hids, rows_ofRows hids']
    exact (hp.map _).symm
  have hmem : ∀ s, s ∈ (ofRows rows').rows ↔ s ∈ (ofRows rows).rows := fun s => by
    rw [← Array.mem_toList_iff, ← Array.mem_toList_iff, hsegments.mem_iff]
  rw [linkAll_fst_eq_ok (sound_ofRows _) (outletSlot?_ofRows _)] at h ⊢
  obtain ⟨hl, rfl⟩ := h
  refine ⟨hl.of_rows hmem, ?_⟩
  rw [← Array.countP_toList, ← Array.countP_toList, hsegments.countP_eq]

/-- Two tables filled with the same rows in any order are linked alike, with as many
links or with none, and have the same topology after. -/
theorem linkAll_perm (hids : (rows.map (·.id)).Nodup) (hp : rows.Perm rows') :
    (∀ n, (ofRows rows).linkAll.1 = .ok n ↔ (ofRows rows').linkAll.1 = .ok n) ∧
      SameTopology (ofRows rows).linkAll.2 (ofRows rows').linkAll.2 := by
  have hids' : (rows'.map (·.id)).Nodup := (hp.map _).nodup_iff.mp hids
  obtain ⟨ht, hwt⟩ := linkAll_linkedByNumber rows
  obtain ⟨hu, hwu⟩ := linkAll_linkedByNumber rows'
  refine ⟨fun n => ⟨linkAll_fst_of_perm hids hp, linkAll_fst_of_perm hids' hp.symm⟩,
    ht.sameTopology hu ?_⟩
  rw [hwt, hwu, written_ofRows hids, written_ofRows hids']
  exact hp

/-- A lateral comes before the main bore when its rows do, and padding may come first. -/
theorem linkAll_perm_backwards :
    ∃ rows : List SegmentRow, rows = [⟨1, 0, 1, {}⟩, ⟨2, 1, 1, {}⟩, ⟨3, 2, 2, {}⟩,
        ⟨4, 2, 1, {}⟩, ⟨5, 3, 2, {}⟩, ⟨9, 3, 0, {}⟩] ∧
      (ofRows rows.reverse).linkAll.1 = .ok 5 ∧ ∃ bs bs',
      (ofRows rows).linkAll.2.decompose = .ok bs ∧
      (ofRows rows.reverse).linkAll.2.decompose = .ok bs' ∧
      bs.branches.map (·.branchId) = [1, 2] ∧ bs'.branches.map (·.branchId) = [2, 1] ∧
      (bs.branches.map (·.trace (ofRows rows).linkAll.2)).Perm
        (bs'.branches.map (·.trace (ofRows rows.reverse).linkAll.2)) := by
  refine ⟨_, rfl, ?_⟩
  have hp := (List.reverse_perm ([⟨1, 0, 1, {}⟩, ⟨2, 1, 1, {}⟩, ⟨3, 2, 2, {}⟩, ⟨4, 2, 1, {}⟩,
    ⟨5, 3, 2, {}⟩, ⟨9, 3, 0, {}⟩] : List SegmentRow)).symm
  obtain ⟨hcount, hsame⟩ := linkAll_perm (by decide) hp
  refine ⟨(hcount 5).mp (by decide +kernel), .ofBranches [⟨1, 3⟩, ⟨2, 4⟩],
    .ofBranches [⟨2, 1⟩, ⟨1, 2⟩], ?_⟩
  have hbs : (ofRows [⟨1, 0, 1, {}⟩, ⟨2, 1, 1, {}⟩, ⟨3, 2, 2, {}⟩, ⟨4, 2, 1, {}⟩,
    ⟨5, 3, 2, {}⟩, ⟨9, 3, 0, {}⟩]).linkAll.2.decompose = .ok (.ofBranches [⟨1, 3⟩, ⟨2, 4⟩]) := by
    decide +kernel
  have hbs' : (ofRows (List.reverse [⟨1, 0, 1, {}⟩, ⟨2, 1, 1, {}⟩, ⟨3, 2, 2, {}⟩,
    ⟨4, 2, 1, {}⟩, ⟨5, 3, 2, {}⟩, ⟨9, 3, 0, {}⟩])).linkAll.2.decompose =
      .ok (.ofBranches [⟨2, 1⟩, ⟨1, 2⟩]) := by decide +kernel
  exact ⟨hbs, hbs', rfl, rfl, hsame.chains _ _ hbs hbs'⟩

end SegmentTable

end Wellbore
