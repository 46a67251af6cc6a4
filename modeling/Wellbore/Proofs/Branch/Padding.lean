import Mathlib.Data.List.NodupEquivFin
import Wellbore.Proofs.Branch.Moved

/-!
# Rows that are not in use

A report gives every well as many rows as its longest one needs, and the rows that are
left over are not in use. They may still name outlets in use and are counted there, they
take slots between the others, and every walk is cut off at a size that counts them.

None of it shows. What is in use drains into what is in use, so the rows in use are a
forest by themselves, and in a forest no chain is cut off; a segment is fed by members of
its own branch only, which are in use like it. And the rows in use keep their order:
the starts are listed as before, and if two of their chains meet, the same two are found.
-/

namespace Wellbore

namespace SegmentTable

variable {f : Slot → Slot} {t u v : SegmentTable} {s : Segment} {rows : List SegmentRow}
  {r : SegmentRow} {m n : Nat}

/-- The rows that are in use, in order. -/
def activeRows (rows : List SegmentRow) : List SegmentRow :=
  rows.filter fun r => r.segment.active

theorem mem_activeRows : r ∈ activeRows rows ↔ r ∈ rows ∧ r.segment.active = true :=
  List.mem_filter

theorem activeRows_idem (rows : List SegmentRow) :
    activeRows (activeRows rows) = activeRows rows := by
  rw [activeRows, activeRows, List.filter_filter]
  simp only [Bool.and_self]

/-! ## Linking the rows in use -/

theorem nodup_activeRows (hids : (rows.map (·.id)).Nodup) :
    ((activeRows rows).map (·.id)).Nodup :=
  hids.sublist (List.filter_sublist.map _)

theorem mem_rows_activeRows (hids : (rows.map (·.id)).Nodup) :
    s ∈ (ofRows (activeRows rows)).rows ↔ s ∈ (ofRows rows).rows ∧ s.active = true := by
  have hfilter : (activeRows rows).map SegmentRow.segment =
      (rows.map SegmentRow.segment).filter Segment.active := by
    rw [activeRows, List.filter_map]
    rfl
  rw [← Array.mem_toList_iff, ← Array.mem_toList_iff, rows_ofRows hids,
    rows_ofRows (nodup_activeRows hids), hfilter, List.mem_filter]

theorem Linkable.drains_of_active (hl : t.Linkable)
    (h : ∀ o, o ∈ u.rows ↔ o ∈ t.rows ∧ o.active = true) (hd : t.Drains s) (hs : s ∈ t.rows)
    (hact : s.active = true) : u.Drains s := by
  induction hd with
  | wellhead hw => exact .wellhead hw
  | into hw ho hid _ ih =>
      have hoact := hl.inUse _ hs _ ho hw hid hact
      exact .into hw ((h _).mpr ⟨ho, hoact⟩) hid (ih ho hoact)

/-- What is in use can be linked by itself. -/
theorem Linkable.of_active (hl : t.Linkable)
    (h : ∀ s, s ∈ u.rows ↔ s ∈ t.rows ∧ s.active = true) : u.Linkable where
  named s hs hw := by
    obtain ⟨hs, hact⟩ := (h s).mp hs
    obtain ⟨hne, o, ho, hid⟩ := hl.named s hs hw
    exact ⟨hne, o, (h o).mpr ⟨ho, hl.inUse s hs o ho hw hid hact⟩, hid⟩
  inUse s hs o ho := hl.inUse s ((h s).mp hs).1 o ((h o).mp ho).1
  drains s hs := by
    obtain ⟨hs, hact⟩ := (h s).mp hs
    exact hl.drains_of_active h (hl.drains s hs) hs hact

theorem linkAll_activeRows (hids : (rows.map (·.id)).Nodup)
    (h : (ofRows rows).linkAll = (.ok n, u)) :
    ∃ m v, (ofRows (activeRows rows)).linkAll = (.ok m, v) := by
  have hl := (linkAll_ok_iff (sound_ofRows rows) (outletSlot?_ofRows rows)).mp
    ⟨n, congrArg Prod.fst h⟩
  obtain ⟨m, hm⟩ := (linkAll_ok_iff (sound_ofRows _) (outletSlot?_ofRows _)).mpr
    (hl.of_active fun s => mem_rows_activeRows hids)
  exact ⟨m, _, Prod.ext hm rfl⟩

/-! ## Decomposing a padded table -/

/-- `u` is `t` with rows that are not in use put between its rows. -/
structure PaddedTo (f : Slot → Slot) (t u : SegmentTable) : Prop extends Carried f t u where
  mono : StrictMono f
  kept : activeRows t.written = activeRows u.written

theorem branchIds_eq (t : SegmentTable) :
    t.branchIds = ((activeRows t.written).map (·.branchId)).eraseDups := by
  have hentries : t.activeEntries.map Prod.snd = t.rows.toList.filter Segment.active := by
    rw [← entries_map_snd, List.filter_map]
    rfl
  have hrows : activeRows t.written =
      (t.rows.toList.filter Segment.active).map Segment.toSegmentRow := by
    rw [activeRows, written, List.filter_map]
    rfl
  rw [hrows, ← hentries, List.map_map, List.map_map]
  rfl

/-- Whether slots clash, and which, does not depend on where they stand. -/
theorem clash?_map (hinj : Function.Injective f) (claimed : List (Slot × Slot))
    (wanted : List (Slot × Branch)) :
    clash? (claimed.map (Prod.map f f)) (wanted.map (Prod.map f (Branch.move f))) =
      (clash? claimed wanted).map (Prod.map f (Branch.move f)) := by
  have hlookup : ∀ (claimed : List (Slot × Slot)) (a : Slot),
      (claimed.map (Prod.map f f)).lookup (f a) = (claimed.lookup a).map f := by
    intro claimed a
    induction claimed with
    | nil => rfl
    | cons p rest ih =>
        rw [List.map_cons, Prod.map, List.lookup_cons, List.lookup_cons, ih]
        by_cases heq : a = p.1
        · rw [heq, beq_self_eq_true, beq_self_eq_true]
          rfl
        · rw [beq_false_of_ne heq, beq_false_of_ne fun h => heq (hinj h)]
  induction wanted generalizing claimed with
  | nil => rfl
  | cons p rest ih =>
      obtain ⟨slot, b⟩ := p
      rw [List.map_cons, Prod.map, clash?, clash?, hlookup]
      cases claimed.lookup slot with
      | some owner => rfl
      | none => exact ih ((slot, b.start) :: claimed)

namespace PaddedTo

theorem starts (h : PaddedTo f t u) : u.starts = t.starts.map (Branch.move f) := by
  have hsorted : (t.starts.map (Branch.move f)).Pairwise fun b b' => b.start < b'.start := by
    rw [List.pairwise_map]
    exact (List.pairwise_map.mp (pairwise_starts t)).imp fun hlt => h.mono hlt
  refine List.Perm.eq_of_pairwise (fun b b' _ _ hlt hlt' => ?_)
    (List.pairwise_map.mp (pairwise_starts u)) hsorted h.perm_starts.symm
  exact absurd hlt (Nat.lt_asymm hlt')

theorem branchIds (h : PaddedTo f t u) : u.branchIds = t.branchIds := by
  rw [branchIds_eq, branchIds_eq, h.kept]

theorem claims (h : PaddedTo f t u) :
    u.claims u.starts = (t.claims t.starts).map (Prod.map f (Branch.move f)) := by
  rw [h.starts, SegmentTable.claims, SegmentTable.claims, List.flatMap_map, List.map_flatMap]
  refine List.flatMap_congr fun b hb => ?_
  rw [h.walk b hb, List.map_map, List.map_map]
  rfl

theorem grouped_map (ids : List Int32) (bs : List Branch) :
    Branch.grouped ids (bs.map (Branch.move f)) =
      (Branch.grouped ids bs).map (Branch.move f) := by
  rw [Branch.grouped, Branch.grouped, List.map_flatMap]
  refine List.flatMap_congr fun id _ => ?_
  rw [List.filter_map]
  rfl

/-- Decomposing the padded table says the same of the segments that were moved. -/
theorem decompose (h : PaddedTo f t u) (ht : t.Forest) (hu : u.Forest) :
    u.decompose = t.decompose.map fun bs => .ofBranches (bs.branches.map (Branch.move f)) := by
  have hclash : clash? [] (u.claims u.starts) =
      (clash? [] (t.claims t.starts)).map (Prod.map f (Branch.move f)) := by
    rw [h.claims]
    exact clash?_map h.inj [] _
  rw [hu.decompose_eq, ht.decompose_eq, hclash]
  cases clash? [] (t.claims t.starts) with
  | some p =>
      obtain ⟨owner, b⟩ := p
      simp only [Option.map_some, Prod.map, Branch.move, h.idAt, Except.map]
  | none =>
      simp only [Option.map_none, h.starts, h.branchIds, grouped_map, Except.map,
        BranchList.branches_ofBranches]

end PaddedTo

/-- The same fork is found in both tables, or the same chains in the same order. -/
def SameBranches (t u : SegmentTable) : Prop :=
  (∃ id first second, t.decompose = .error (.ambiguousBranchStart id first second) ∧
    u.decompose = .error (.ambiguousBranchStart id first second)) ∨
  ∃ bs bs', t.decompose = .ok bs ∧ u.decompose = .ok bs' ∧
    bs.branches.map (·.trace t) = bs'.branches.map (·.trace u)

theorem PaddedTo.sameBranches (h : PaddedTo f t u) (ht : t.Forest) (hu : u.Forest) :
    SameBranches u t := by
  have hmoved := h.decompose ht hu
  rcases ht.decompose_cases with ⟨-, id, first, second, herr⟩ | ⟨-, hok⟩
  · rw [herr] at hmoved
    exact .inl ⟨id, first, second, hmoved, herr⟩
  · rw [hok] at hmoved
    refine .inr ⟨_, _, hmoved, hok, ?_⟩
    dsimp only
    rw [BranchList.branches_ofBranches, BranchList.branches_ofBranches, List.map_map]
    exact List.map_congr_left fun b hb => h.trace_move ((SegmentTable.perm_starts t).mem_iff.mp hb)

/-! ## Taking the padding out -/

theorem exists_paddedTo (hids : (rows.map (·.id)).Nodup)
    (h : (ofRows rows).linkAll = (.ok n, u))
    (h' : (ofRows (activeRows rows)).linkAll = (.ok m, v)) : ∃ f, PaddedTo f v u := by
  obtain ⟨hu, hwu, hnu⟩ := linkedByNumber_of_linkAll hids h
  obtain ⟨hv, hwv, hnv⟩ := linkedByNumber_of_linkAll (nodup_activeRows hids) h'
  have hsub : (activeRows rows).Sublist rows := List.filter_sublist
  obtain ⟨f, hf⟩ := List.sublist_iff_exists_orderEmbedding_getElem?_eq.mp hsub
  have hmoved : MovedBy f v u := by
    refine hv.movedBy hu f.injective ?_ ?_ ?_ <;> rw [hwu, hwv]
    · exact hf
    · exact iff_of_true hnv hnu
    · exact fun r hr hact => mem_activeRows.mpr ⟨hr, hact⟩
  refine ⟨f, hmoved.carried_of_forest ?_ ?_, f.strictMono, ?_⟩
  · exact forest_of_linkAll (sound_ofRows _) h'
  · exact forest_of_linkAll (sound_ofRows _) h
  · rw [hwu, hwv, activeRows_idem]

/-- When all rows can be linked, so can the rows in use by themselves; what is in use has
the same outlets then, and decomposing gives the same answer. -/
theorem linkAll_without_padding (hids : (rows.map (·.id)).Nodup)
    (h : (ofRows rows).linkAll = (.ok n, u)) :
    ∃ m v, (ofRows (activeRows rows)).linkAll = (.ok m, v) ∧
      (∀ r ∈ rows, r.segment.active = true →
        ∃ o, u.outletIdOf? r.id = some o ∧ v.outletIdOf? r.id = some o) ∧
      SameBranches u v := by
  obtain ⟨m, v, h'⟩ := linkAll_activeRows hids h
  refine ⟨m, v, h', fun r hr hact => ?_, ?_⟩
  · have hkept : r ∈ activeRows rows := mem_activeRows.mpr ⟨hr, hact⟩
    exact ⟨_, outletIdOf?_of_linkAll hids h hr,
      outletIdOf?_of_linkAll (nodup_activeRows hids) h' hkept⟩
  · obtain ⟨f, hf⟩ := exists_paddedTo hids h h'
    exact hf.sameBranches (forest_of_linkAll (sound_ofRows _) h')
      (forest_of_linkAll (sound_ofRows _) h)

/-- Padding in front of the rows in use and between them, some of it draining into them. -/
theorem linkAll_without_padding_between :
    ∃ u m v, (ofRows [⟨9, 1, 0, {}⟩, ⟨1, 0, 1, {}⟩, ⟨8, 2, 0, {}⟩, ⟨2, 1, 1, {}⟩,
        ⟨3, 1, 2, {}⟩, ⟨7, 0, 0, {}⟩]).linkAll = (.ok 4, u) ∧
      (ofRows (activeRows [⟨9, 1, 0, {}⟩, ⟨1, 0, 1, {}⟩, ⟨8, 2, 0, {}⟩, ⟨2, 1, 1, {}⟩,
        ⟨3, 1, 2, {}⟩, ⟨7, 0, 0, {}⟩])).linkAll = (.ok m, v) ∧
      (∃ o, u.outletIdOf? 3 = some o ∧ v.outletIdOf? 3 = some o) ∧ SameBranches u v ∧
      u.decompose = .ok (.ofBranches [⟨1, 3⟩, ⟨2, 4⟩]) := by
  have h : (ofRows [⟨9, 1, 0, {}⟩, ⟨1, 0, 1, {}⟩, ⟨8, 2, 0, {}⟩, ⟨2, 1, 1, {}⟩,
    ⟨3, 1, 2, {}⟩, ⟨7, 0, 0, {}⟩]).linkAll = (.ok 4, _) := linkAll_eq (by decide +kernel)
  obtain ⟨m, v, hv, houtlet, hsame⟩ := linkAll_without_padding (by decide) h
  have hlateral := houtlet ⟨3, 1, 2, {}⟩ (by simp only [List.mem_cons, true_or, or_true])
    (by decide)
  exact ⟨_, m, v, h, hv, hlateral, hsame, by decide +kernel⟩

/-- A fork is found at the same two starts, with padding or without. -/
example : [[⟨9, 2, 0, {}⟩, ⟨1, 0, 1, {}⟩, ⟨2, 1, 1, {}⟩, ⟨8, 0, 0, {}⟩, ⟨3, 2, 1, {}⟩,
    ⟨4, 2, 1, {}⟩], [⟨1, 0, 1, {}⟩, ⟨2, 1, 1, {}⟩, ⟨3, 2, 1, {}⟩, ⟨4, 2, 1, {}⟩]].map
      (fun rows => (ofRows rows).linkAll.2.decompose) =
    List.replicate 2 (.error (.ambiguousBranchStart 1 3 4)) := by decide +kernel

end SegmentTable

end Wellbore
