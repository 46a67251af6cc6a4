import Mathlib.Data.List.Perm.Basic
import Wellbore.Proofs.Segment.Forest

/-!
# Linking a table that was just filled

What linking makes of a freshly filled table is a matter of its rows alone, and hardly
of their order. Either every row that names an outlet names another row that is there
(`Named`), and then all links are made; or none is. `LinkedByNumber` says this of the
table after, whether or not the links were then found to be a forest.

From it the two questions that can be asked of a number have answers in terms of the
rows: which number its outlet has, and how many rows name it.
-/

namespace Wellbore

namespace SegmentTable

variable {t u : SegmentTable} {a b : Slot} {rows rows' : List SegmentRow} {r q : SegmentRow}
  {id : Int32} {n : Nat}

/-! ## Which tables are accepted -/

theorem Drains.of_rows (h : ∀ s ∈ t.rows, s ∈ u.rows) {s : Segment} (hd : t.Drains s) :
    u.Drains s := by
  induction hd with
  | wellhead hw => exact .wellhead hw
  | into hw ho hid _ ih => exact .into hw (h _ ho) hid ih

/-- The order of the segments does not decide whether they can be linked. -/
theorem Linkable.of_rows (hl : t.Linkable) (h : ∀ s, s ∈ u.rows ↔ s ∈ t.rows) : u.Linkable where
  named s hs hw := by
    obtain ⟨hne, o, ho, hid⟩ := hl.named s ((h s).mp hs) hw
    exact ⟨hne, o, (h o).mpr ho, hid⟩
  inUse s hs o ho := hl.inUse s ((h s).mp hs) o ((h o).mp ho)
  drains s hs := (hl.drains s ((h s).mp hs)).of_rows fun o ho => (h o).mpr ho

theorem linkAll_fst_eq_ok (hs : t.Sound) (hfree : ∀ a, t.outletSlot? a = none) :
    t.linkAll.1 = .ok n ↔
      t.Linkable ∧ n = t.rows.countP fun s => s.outletId != wellheadOutlet := by
  constructor
  · intro h
    have hok : t.linkAll = (.ok n, t.linkAll.2) := Prod.ext h rfl
    exact ⟨(linkAll_ok_iff hs hfree).mp ⟨n, h⟩, (linkAll_eq_ok hs hok).1⟩
  · rintro ⟨hl, rfl⟩
    obtain ⟨m, hm⟩ := (linkAll_ok_iff hs hfree).mpr hl
    have hok : t.linkAll = (.ok m, t.linkAll.2) := Prod.ext hm rfl
    rw [hm, (linkAll_eq_ok hs hok).1]

/-! ## What the rows say about links -/

/-- Every row that names an outlet names another row. -/
def Named (rows : List SegmentRow) : Prop :=
  ∀ r ∈ rows, r.outletId = wellheadOutlet ∨
    r.outletId ≠ r.id ∧ ∃ q ∈ rows, q.id = r.outletId

theorem Named.of_mem_iff (h : ∀ r, r ∈ rows' ↔ r ∈ rows) (hn : Named rows) : Named rows' := by
  intro r hr
  rcases hn r ((h r).mp hr) with hw | ⟨hne, q, hq, hid⟩
  · exact .inl hw
  · exact .inr ⟨hne, q, (h q).mpr hq, hid⟩

/-- The row at `a` names the row at `b` as its outlet. -/
def Names (rows : List SegmentRow) (a b : Slot) : Prop :=
  ∃ r q, rows[a]? = some r ∧ rows[b]? = some q ∧ r.outletId ≠ wellheadOutlet ∧
    q.id = r.outletId

/-- All links that the rows ask for are made, or none if one of them cannot be. -/
structure LinkedByNumber (t : SegmentTable) : Prop where
  sound : t.Sound
  outlet : ∀ {a b}, t.outletSlot? a = some b ↔ Named t.written ∧ Names t.written a b

theorem written_eq_some : t.written[a]? = some r ↔ ∃ s, t.get? a = some s ∧ s.toSegmentRow = r := by
  rw [getElem?_written, Option.map_eq_some_iff]

theorem mem_written : r ∈ t.written ↔ ∃ s ∈ t.rows, s.toSegmentRow = r := by
  rw [written, List.mem_map]
  simp only [Array.mem_toList_iff]

theorem written_unique (ha : t.written[a]? = some r)
    (hb : t.written[b]? = some q) (hid : r.id = q.id) : a = b := by
  obtain ⟨s, hsa, rfl⟩ := written_eq_some.mp ha
  obtain ⟨o, hob, rfl⟩ := written_eq_some.mp hb
  exact unique hsa hob hid

theorem named_iff_findable : Named t.written ↔ ∀ s ∈ t.rows, t.Findable s := by
  constructor
  · intro h s hs
    rcases h s.toSegmentRow (mem_written.mpr ⟨s, hs, rfl⟩) with hw | ⟨hne, q, hq, hid⟩
    · exact .inl hw
    · obtain ⟨o, ho, rfl⟩ := mem_written.mp hq
      exact .inr ⟨hne, o, ho, hid⟩
  · intro h r hr
    obtain ⟨s, hs, rfl⟩ := mem_written.mp hr
    rcases h s hs with hw | ⟨hne, o, ho, hid⟩
    · exact .inl hw
    · exact .inr ⟨hne, o.toSegmentRow, mem_written.mpr ⟨o, ho, rfl⟩, hid⟩

theorem Resolved.linkedByNumber (hr : Resolved t u)
    (hfree : ∀ a, t.outletSlot? a = none) (hf : ∀ s ∈ t.rows, t.Findable s) :
    u.LinkedByNumber where
  sound := hr.sound
  outlet {a b} := by
    rw [hr.written, and_iff_right (named_iff_findable.mpr hf)]
    constructor
    · intro h
      have ha : a < t.size := by
        obtain ⟨s, hsa, _⟩ := outletSlot?_eq_some.mp h
        rw [← size_eq_of_written hr.written]
        exact get?_lt hsa
      obtain ⟨s, hsa⟩ := get?_of_lt ha
      obtain ⟨hw, o, ho, hid⟩ := (hr.outlet_iff hfree hsa).mp h
      exact ⟨_, _, written_eq_some.mpr ⟨s, hsa, rfl⟩, written_eq_some.mpr ⟨o, ho, rfl⟩, hw, hid⟩
    · rintro ⟨_, _, ha, hb, hw, hid⟩
      obtain ⟨s, hsa, rfl⟩ := written_eq_some.mp ha
      obtain ⟨o, ho, rfl⟩ := written_eq_some.mp hb
      exact (hr.outlet_iff hfree hsa).mpr ⟨hw, o, ho, hid⟩

/-- However linking a fresh table ends, it leaves the rows as they are and the links as
the numbers have them. -/
theorem linkAll_linkedByNumber (rows : List SegmentRow) :
    (ofRows rows).linkAll.2.LinkedByNumber ∧
      (ofRows rows).linkAll.2.written = (ofRows rows).written := by
  have hs := sound_ofRows rows
  have hfree := outletSlot?_ofRows rows
  rcases linkAll_cases hs with ⟨hno, e, he⟩ | ⟨hf, u, hr, hend⟩
  · have hu : (ofRows rows).linkAll.2 = ofRows rows := by rw [he]
    rw [hu]
    refine ⟨⟨hs, fun {a b} => ?_⟩, rfl⟩
    rw [hfree, named_iff_findable]
    exact ⟨fun h => (Option.some_ne_none _ h.symm).elim, fun h => absurd h.1 hno⟩
  · have hu : (ofRows rows).linkAll.2 = u := by
      rcases hend with ⟨e, -, he⟩ | ⟨-, hok⟩
      · rw [he]
      · rw [hok]
    rw [hu]
    exact ⟨hr.linkedByNumber hfree hf, hr.written⟩

theorem linkedByNumber_of_linkAll (hids : (rows.map (·.id)).Nodup)
    (h : (ofRows rows).linkAll = (.ok n, u)) :
    u.LinkedByNumber ∧ u.written = rows ∧ Named rows := by
  obtain ⟨hlinked, hw⟩ := linkAll_linkedByNumber rows
  rw [h, written_ofRows hids] at hw
  rw [h] at hlinked
  obtain ⟨-, hf, -⟩ := linkAll_eq_ok (sound_ofRows rows) h
  have hnamed := named_iff_findable.mpr hf
  rw [written_ofRows hids] at hnamed
  exact ⟨hlinked, hw, hnamed⟩

/-! ## Asking for a number -/

/-- The number of the outlet that the segment with a number is linked to, if there is
such a segment. -/
def outletIdOf? (t : SegmentTable) (id : Int32) : Option (Option Int32) :=
  (t.withId? id).map fun s => (s.outlet.bind t.get?).map (·.id)

/-- How many segments are linked to the segment with a number, if there is one. -/
def linkCountOf? (t : SegmentTable) (id : Int32) : Option Nat :=
  (t.withId? id).map (·.linkCount)

theorem withId?_eq_some {s : Segment} :
    t.withId? id = some s ↔ ∃ a, t.get? a = some s ∧ s.id = id := by
  rw [withId?, Option.bind_eq_some_iff]
  simp only [slotOf?_eq_some]
  constructor
  · rintro ⟨a, ⟨s', ha', hid⟩, ha⟩
    rw [ha] at ha'
    cases ha'
    exact ⟨a, ha, hid⟩
  · rintro ⟨a, ha, hid⟩
    exact ⟨a, ⟨s, ha, hid⟩, ha⟩

namespace LinkedByNumber

open scoped Classical in
/-- The link of a segment leads to the number it names. -/
theorem map_id_outlet (h : t.LinkedByNumber) {s : Segment} (ha : t.get? a = some s) :
    (s.outlet.bind t.get?).map (·.id) =
      if Named t.written ∧ s.outletId ≠ wellheadOutlet then some s.outletId else none := by
  have hrow : t.written[a]? = some s.toSegmentRow := written_eq_some.mpr ⟨s, ha, rfl⟩
  rw [← outletSlot?_of_get? ha]
  split
  next hmade =>
    obtain ⟨hn, hw⟩ := hmade
    obtain ⟨-, q, hq, hid⟩ :=
      (hn s.toSegmentRow (List.mem_of_getElem? hrow)).resolve_left hw
    obtain ⟨b, hb⟩ := List.getElem?_of_mem hq
    obtain ⟨o, ho, rfl⟩ := written_eq_some.mp hb
    rw [h.outlet.mpr ⟨hn, _, _, hrow, hb, hw, hid⟩, Option.bind_some, ho, Option.map_some, hid]
  next hnot =>
    cases hout : t.outletSlot? a with
    | none => rfl
    | some b =>
        obtain ⟨hn, r, q, hr, -, hw, -⟩ := h.outlet.mp hout
        rw [hrow] at hr
        cases hr
        exact absurd ⟨hn, hw⟩ hnot

open scoped Classical in
theorem outletIdOf?_eq_some (h : t.LinkedByNumber) {x : Option Int32} :
    t.outletIdOf? id = some x ↔ ∃ r ∈ t.written, r.id = id ∧
      x = if Named t.written ∧ r.outletId ≠ wellheadOutlet then some r.outletId else none := by
  rw [outletIdOf?, Option.map_eq_some_iff]
  simp only [withId?_eq_some]
  constructor
  · rintro ⟨s, ⟨a, ha, rfl⟩, rfl⟩
    exact ⟨s.toSegmentRow, mem_written.mpr ⟨s, mem_rows.mpr ⟨a, ha⟩, rfl⟩, rfl,
      h.map_id_outlet ha⟩
  · rintro ⟨r, hr, rfl, rfl⟩
    obtain ⟨s, hs, rfl⟩ := mem_written.mp hr
    obtain ⟨a, ha⟩ := mem_rows.mp hs
    exact ⟨s, ⟨a, ha, rfl⟩, h.map_id_outlet ha⟩

open scoped Classical in
/-- What is linked to a segment are the rows that name it. -/
theorem feeders_eq (h : t.LinkedByNumber) (ha : t.written[a]? = some q) :
    t.feeders a = t.written.countP fun r =>
      Named t.written ∧ r.outletId ≠ wellheadOutlet ∧ r.outletId = q.id := by
  rw [feeders, ← Array.countP_toList, written, List.countP_map]
  refine List.countP_congr fun s hs => ?_
  obtain ⟨b, hb⟩ := mem_rows.mp (Array.mem_toList_iff.mp hs)
  have hrow : t.written[b]? = some s.toSegmentRow := written_eq_some.mpr ⟨s, hb, rfl⟩
  rw [beq_iff_eq, ← outletSlot?_of_get? hb, h.outlet, Function.comp_apply, decide_eq_true_eq]
  constructor
  · rintro ⟨hn, r, q', hr, hq', hw, hid⟩
    rw [hrow] at hr
    rw [ha] at hq'
    cases hr
    cases hq'
    exact ⟨hn, hw, hid.symm⟩
  · rintro ⟨hn, hw, hid⟩
    exact ⟨hn, _, _, hrow, ha, hw, hid.symm⟩

open scoped Classical in
theorem linkCountOf?_eq_some (h : t.LinkedByNumber) :
    t.linkCountOf? id = some n ↔ (∃ r ∈ t.written, r.id = id) ∧
      n = t.written.countP fun r =>
        Named t.written ∧ r.outletId ≠ wellheadOutlet ∧ r.outletId = id := by
  rw [linkCountOf?, Option.map_eq_some_iff]
  simp only [withId?_eq_some]
  constructor
  · rintro ⟨s, ⟨a, ha, rfl⟩, rfl⟩
    refine ⟨⟨s.toSegmentRow, mem_written.mpr ⟨s, mem_rows.mpr ⟨a, ha⟩, rfl⟩, rfl⟩, ?_⟩
    rw [h.sound.counted ha, h.feeders_eq (written_eq_some.mpr ⟨s, ha, rfl⟩)]
  · rintro ⟨⟨r, hr, rfl⟩, rfl⟩
    obtain ⟨s, hs, rfl⟩ := mem_written.mp hr
    obtain ⟨a, ha⟩ := mem_rows.mp hs
    refine ⟨s, ⟨a, ha, rfl⟩, ?_⟩
    rw [h.sound.counted ha, h.feeders_eq (written_eq_some.mpr ⟨s, ha, rfl⟩)]

end LinkedByNumber

theorem outletIdOf?_of_linkAll (hids : (rows.map (·.id)).Nodup)
    (h : (ofRows rows).linkAll = (.ok n, u)) (hr : r ∈ rows) :
    u.outletIdOf? r.id =
      some (if r.outletId = wellheadOutlet then none else some r.outletId) := by
  obtain ⟨hlinked, hw, hnamed⟩ := linkedByNumber_of_linkAll hids h
  rw [hlinked.outletIdOf?_eq_some, hw]
  refine ⟨r, hr, rfl, ?_⟩
  by_cases hwell : r.outletId = wellheadOutlet
  · rw [if_pos hwell, if_neg fun hlink => hlink.2 hwell]
  · rw [if_neg hwell, if_pos ⟨hnamed, hwell⟩]

end SegmentTable

end Wellbore
