import Wellbore.Proofs.Segment.Linking

/-!
# Linking accepts exactly the forests

Whether a table can be linked is a question about its rows: does every segment
name another one that is there, does none in use name one that is not, and does
following the names end at the wellhead? `linkAll` answers it through the links it
makes and a walk bounded by the size of the table. Here both views are shown to be
the same, and what linking leaves behind is described: `Linked` for a caller who
looks at one segment, `Forest` for the proofs that walk.
-/

namespace Wellbore

namespace SegmentTable

open Slot (EndsIn Ends Leads)

variable {t u : SegmentTable} {a b : Slot} {s o : Segment} {n : Nat}

/-- Following the outlet numbers from a segment comes to one that drains into the
wellhead. -/
inductive Drains (t : SegmentTable) : Segment → Prop where
  | wellhead {s : Segment} (h : s.outletId = wellheadOutlet) : Drains t s
  | into {s o : Segment} (h : s.outletId ≠ wellheadOutlet) (ho : o ∈ t.rows)
      (hid : o.id = s.outletId) (hd : Drains t o) : Drains t s

/-- The rows of a table form a forest that drains into the wellhead. -/
structure Linkable (t : SegmentTable) : Prop where
  named : ∀ s ∈ t.rows, s.outletId ≠ wellheadOutlet →
    s.outletId ≠ s.id ∧ ∃ o ∈ t.rows, o.id = s.outletId
  inUse : ∀ s ∈ t.rows, ∀ o ∈ t.rows, s.outletId ≠ wellheadOutlet → o.id = s.outletId →
    s.active = true → o.active = true
  drains : ∀ s ∈ t.rows, t.Drains s

/-- What linking makes of the rows of `t`. -/
structure Linked (t u : SegmentTable) : Prop where
  written : u.written = t.written
  outlet : ∀ a s, u.get? a = some s → s.outletId ≠ wellheadOutlet →
    ∃ b o, s.outlet = some b ∧ u.get? b = some o ∧ o.id = s.outletId ∧
      ∀ c o', u.get? c = some o' → o'.id = s.outletId → c = b
  root : ∀ a s, u.get? a = some s → s.outletId = wellheadOutlet → s.outlet = none
  counted : ∀ a s, u.get? a = some s →
    s.linkCount = u.rows.countP fun r => r.outlet == some a
  reaches : ∀ a s, u.get? a = some s →
    (u.outletChain a).head? = some a ∧
    (u.outletChain a).IsChain (fun x y => u.outletSlot? x = some y) ∧
    (u.outletChain a).length ≤ u.size ∧
    ∃ z r, (u.outletChain a).getLast? = some z ∧ u.get? z = some r ∧
      r.outletId = wellheadOutlet
  inUse : ∀ a s, u.get? a = some s → s.active = true → ∀ b ∈ u.outletChain a,
    ∃ r, u.get? b = some r ∧ r.active = true

/-- A table whose links are all made and lead to the wellhead. -/
structure Forest (u : SegmentTable) : Prop where
  sound : u.Sound
  linked : ∀ {a s}, u.get? a = some s → s.outletId ≠ wellheadOutlet →
    ∃ b, s.outlet = some b
  inUse : ∀ {a b s o}, u.get? a = some s → s.outlet = some b → u.get? b = some o →
    s.active = true → o.active = true
  ends : ∀ {a}, a < u.size → Ends u.outletSlot? a

theorem active_of_row (h : s.toSegmentRow = o.toSegmentRow) : s.active = o.active := by
  rw [Segment.active, Segment.active, h]

theorem outletSlot?_of_get? (h : t.get? a = some s) : t.outletSlot? a = s.outlet := by
  rw [outletSlot?, h, Option.bind_some]

theorem Resolved.linked (hr : Resolved t u) (hf : ∀ s ∈ t.rows, t.Findable s)
    (ha : u.get? a = some s) (hs : s.outletId ≠ wellheadOutlet) :
    ∃ b, s.outlet = some b := by
  obtain ⟨s', ha', hrow⟩ := get?_of_written hr.written.symm ha
  have hs' : s'.outletId ≠ wellheadOutlet := by rw [hrow]; exact hs
  have ho := ((hf s' (mem_rows.mpr ⟨a, ha'⟩)).resolve_left hs').2
  have hout := hr.outlet ha'
  rw [if_neg fun h => hs' (nearestWellhead_iff.mp h), outletSlot?_of_get? ha] at hout
  rw [hout]
  exact Option.isSome_iff_exists.mp (slotOf?_isSome.mpr ho)

/-- What a successful linking is made of. -/
theorem linkAll_eq_ok (hs : t.Sound) (h : t.linkAll = (.ok n, u)) :
    n = (t.rows.countP fun s => s.outletId != wellheadOutlet) ∧
      (∀ s ∈ t.rows, t.Findable s) ∧ Resolved t u ∧ u.linkFault? = none := by
  rcases linkAll_cases hs with ⟨_, e, he⟩ | ⟨hf, v, hv, ⟨e, _, he⟩ | ⟨hfault, hok⟩⟩
  · rw [he] at h; cases h
  · rw [he] at h; cases h
  · rw [hok] at h; cases h; exact ⟨rfl, hf, hv, hfault⟩

theorem forest_of_linkAll (hs : t.Sound) (h : t.linkAll = (.ok n, u)) : u.Forest := by
  obtain ⟨_, hf, hr, hfault⟩ := linkAll_eq_ok hs h
  obtain ⟨hactive, hends⟩ := (linkFault?_eq_none hr.sound).mp hfault
  exact {
    sound := hr.sound
    linked := fun ha hw => hr.linked hf ha hw
    inUse := fun ha hb ho hact => hactive _ _ _ _ ha hb ho hact
    ends := fun ha => hends _ ha }

/-! ## Numbers and links lead the same way -/

/-- In a table that had no links, the link of a segment is where its outlet number
is. -/
theorem Resolved.outlet_iff (hr : Resolved t u)
    (hfree : ∀ a, t.outletSlot? a = none) (ha : t.get? a = some s) :
    u.outletSlot? a = some b ↔
      s.outletId ≠ wellheadOutlet ∧ ∃ o, t.get? b = some o ∧ o.id = s.outletId := by
  rw [hr.outlet ha, hfree, Ne, ← nearestWellhead_iff]
  split
  next hw => simp [hw]
  next hw =>
    rw [slotOf?_eq_some, iff_and_self]
    exact fun _ => hw

theorem drains_of_ends (hr : Resolved t u)
    (hfree : ∀ a, t.outletSlot? a = none) (hf : ∀ s ∈ t.rows, t.Findable s)
    {k : Nat} (hk : EndsIn u.outletSlot? k a) (ha : t.get? a = some s) : t.Drains s := by
  induction hk generalizing s with
  | here hnone =>
      obtain ⟨s', ha', hrow⟩ := get?_of_written hr.written ha
      by_cases hw : s.outletId = wellheadOutlet
      · exact .wellhead hw
      · obtain ⟨b, hb⟩ := hr.linked hf ha' (by rw [hrow]; exact hw)
        rw [outletSlot?_of_get? ha', hb] at hnone
        cases hnone
  | there hsome _ ih =>
      obtain ⟨hw, o, hb, hid⟩ := (hr.outlet_iff hfree ha).mp hsome
      exact .into hw (mem_rows.mpr ⟨_, hb⟩) hid (ih hb)

theorem ends_of_drains (hr : Resolved t u)
    (hfree : ∀ a, t.outletSlot? a = none) (h : t.Drains s) (ha : t.get? a = some s) :
    Ends u.outletSlot? a := by
  induction h generalizing a with
  | wellhead hw =>
      refine .here ?_
      rw [hr.outlet ha, if_pos (nearestWellhead_iff.mpr hw), hfree]
  | into hw ho hid _ ih =>
      obtain ⟨b, hb⟩ := mem_rows.mp ho
      exact .there ((hr.outlet_iff hfree ha).mpr ⟨hw, _, hb, hid⟩) (ih hb)

theorem Resolved.linkable (hr : Resolved t u)
    (hfree : ∀ a, t.outletSlot? a = none) (hf : ∀ s ∈ t.rows, t.Findable s)
    (hfault : u.linkFault? = none) : t.Linkable := by
  obtain ⟨hactive, hends⟩ := (linkFault?_eq_none hr.sound).mp hfault
  constructor
  case named => exact fun s hmem hw => (hf s hmem).resolve_left hw
  case inUse =>
    intro s hmem o hmem' hw hid hact
    obtain ⟨a, ha⟩ := mem_rows.mp hmem
    obtain ⟨b, hb⟩ := mem_rows.mp hmem'
    obtain ⟨s', ha', hrow⟩ := get?_of_written hr.written ha
    obtain ⟨o', hb', hrow'⟩ := get?_of_written hr.written hb
    have hout := (hr.outlet_iff hfree ha).mpr ⟨hw, o, hb, hid⟩
    rw [outletSlot?_of_get? ha'] at hout
    rw [← active_of_row hrow']
    rw [← active_of_row hrow] at hact
    exact hactive a b s' o' ha' hout hb' hact
  case drains =>
    intro s hmem
    obtain ⟨a, ha⟩ := mem_rows.mp hmem
    obtain ⟨k, hk⟩ := hends a (by rw [size_eq_of_written hr.written]; exact get?_lt ha)
    exact drains_of_ends hr hfree hf hk ha

theorem Resolved.linkFault?_none (hr : Resolved t u)
    (hfree : ∀ a, t.outletSlot? a = none) (hl : t.Linkable) : u.linkFault? = none := by
  rw [linkFault?_eq_none hr.sound]
  refine ⟨fun a b s o ha hb ho hact => ?_, fun a ha => ?_⟩
  · obtain ⟨s', ha', hrow⟩ := get?_of_written hr.written.symm ha
    obtain ⟨o', hb', hrow'⟩ := get?_of_written hr.written.symm ho
    obtain ⟨hw, o'', hb'', hid⟩ :=
      (hr.outlet_iff hfree ha').mp ((outletSlot?_of_get? ha).trans hb)
    rw [hb'] at hb''
    cases hb''
    rw [← active_of_row hrow']
    rw [← active_of_row hrow] at hact
    exact hl.inUse s' (mem_rows.mpr ⟨a, ha'⟩) o' (mem_rows.mpr ⟨b, hb'⟩) hw hid hact
  · obtain ⟨s, hget⟩ := get?_of_lt (size_eq_of_written hr.written ▸ ha)
    exact ends_of_drains hr hfree (hl.drains s (mem_rows.mpr ⟨a, hget⟩)) hget

/-- A sound table without links can be linked if and only if its rows say so. -/
theorem linkAll_ok_iff (hs : t.Sound) (hfree : ∀ a, t.outletSlot? a = none) :
    (∃ n, t.linkAll.1 = .ok n) ↔ t.Linkable := by
  constructor
  · rintro ⟨n, h⟩
    have hok : t.linkAll = (.ok n, t.linkAll.2) := by rw [← h]
    obtain ⟨_, hf, hr, hfault⟩ := linkAll_eq_ok hs hok
    exact hr.linkable hfree hf hfault
  · intro hl
    have hf : ∀ s ∈ t.rows, t.Findable s := fun s hmem => by
      by_cases hw : s.outletId = wellheadOutlet
      · exact .inl hw
      · exact .inr (hl.named s hmem hw)
    rcases linkAll_cases hs with ⟨hno, _⟩ | ⟨_, u, hr, ⟨e, hfault, _⟩ | ⟨_, hok⟩⟩
    · exact absurd hf hno
    · rw [hr.linkFault?_none hfree hl] at hfault
      cases hfault
    · exact ⟨_, congrArg Prod.fst hok⟩

/-! ## The chains of a forest -/

theorem outletChain_of_lt (ha : a < u.size) :
    u.outletChain a = Slot.walk u.outletSlot? u.size a := by
  obtain ⟨s, hs⟩ := get?_of_lt ha
  rw [outletChain, hs, if_pos Option.isSome_some]

namespace Forest

theorem outletChain_eq (ha : u.get? a = some s) :
    ∃ m, u.size = m + 1 ∧ u.outletChain a = Slot.walk u.outletSlot? (m + 1) a := by
  obtain ⟨m, hm⟩ := Nat.exists_eq_add_one.mpr (Nat.zero_lt_of_lt (get?_lt ha))
  refine ⟨m, hm, ?_⟩
  rw [outletChain_of_lt (get?_lt ha), hm]

theorem leads_lt (hf : u.Forest) (h : Leads u.outletSlot? a b) (ha : a < u.size) :
    b < u.size :=
  h.induct (P := (· < u.size)) ha fun _ _ _ hstep => hf.sound.outletSlot?_lt hstep

theorem leads_active (hf : u.Forest) (h : Leads u.outletSlot? a b)
    (ha : ∃ r, u.get? a = some r ∧ r.active = true) :
    ∃ r, u.get? b = some r ∧ r.active = true := by
  refine h.induct (P := fun x => ∃ r, u.get? x = some r ∧ r.active = true) ha ?_
  rintro x y ⟨r, hx, hact⟩ hstep
  rw [outletSlot?_of_get? hx] at hstep
  obtain ⟨o, ho⟩ := get?_of_lt (hf.sound.outletSlot?_lt ((outletSlot?_of_get? hx).trans hstep))
  exact ⟨o, ho, hf.inUse hx hstep ho hact⟩

/-- The last slot of a chain drains into the wellhead: every other one has a link. -/
theorem outletId_of_end (hf : u.Forest) (hb : b < u.size) (hend : u.outletSlot? b = none) :
    ∃ r, u.get? b = some r ∧ r.outletId = wellheadOutlet := by
  obtain ⟨r, hr⟩ := get?_of_lt hb
  refine ⟨r, hr, ?_⟩
  by_contra hw
  obtain ⟨c, hc⟩ := hf.linked hr hw
  rw [outletSlot?_of_get? hr, hc] at hend
  cases hend

theorem endsIn_lt (hf : u.Forest) (ha : a < u.size) :
    ∃ k, k < u.size ∧ EndsIn u.outletSlot? k a := by
  obtain ⟨k, hk⟩ := hf.ends ha
  exact ⟨k, hk.lt_size ha fun _ _ => hf.sound.outletSlot?_lt, hk⟩

end Forest

/-- Linking a freshly filled table succeeds exactly when the rows form a forest; it
then counts the outlets there are and links every one of them. -/
theorem linkAll_ofRows (rows : List SegmentRow) :
    ((∃ n, (ofRows rows).linkAll.1 = .ok n) ↔ (ofRows rows).Linkable) ∧
    ∀ n u, (ofRows rows).linkAll = (.ok n, u) →
      n = ((ofRows rows).rows.countP fun s => s.outletId != wellheadOutlet) ∧
        Linked (ofRows rows) u := by
  have hs := sound_ofRows rows
  have hfree := outletSlot?_ofRows rows
  refine ⟨linkAll_ok_iff hs hfree, fun n u h => ?_⟩
  obtain ⟨hn, hfind, hr, _⟩ := linkAll_eq_ok hs h
  have hf := forest_of_linkAll hs h
  refine ⟨hn, ?_⟩
  constructor
  case written => exact hr.written
  case outlet =>
    intro a s ha hw
    obtain ⟨b, hb⟩ := hf.linked ha hw
    obtain ⟨s', o, ha', ho, hid, _⟩ := hr.sound.matched ((outletSlot?_of_get? ha).trans hb)
    rw [ha] at ha'
    cases ha'
    exact ⟨b, o, hb, ho, hid, fun c o' hc hid' => unique hc ho (hid'.trans hid.symm)⟩
  case root =>
    intro a s ha hw
    obtain ⟨s', ha', hrow⟩ := get?_of_written hr.written.symm ha
    have hout := hr.outlet ha'
    rw [if_pos (nearestWellhead_iff.mpr (by rw [hrow]; exact hw)), hfree] at hout
    rw [← outletSlot?_of_get? ha, hout]
  case counted => exact fun a s ha => hr.sound.counted ha
  case reaches =>
    intro a s ha
    obtain ⟨k, hlt, hk⟩ := hf.endsIn_lt (get?_lt ha)
    obtain ⟨m, hm, hchain⟩ := Forest.outletChain_eq ha
    rw [hm] at hlt
    rw [hchain]
    refine ⟨Slot.head?_walk, Slot.isChain_walk, ?_, ?_⟩
    · rw [hk.length_walk hlt, hm]; omega
    · obtain ⟨z, hz, hend⟩ := hk.getLast?_walk hlt
      have hzlt := hf.leads_lt (Slot.leads_of_mem_walk (List.mem_of_getLast? hz)) (get?_lt ha)
      obtain ⟨r, hr, hw⟩ := hf.outletId_of_end hzlt hend
      exact ⟨z, r, hz, hr, hw⟩
  case inUse =>
    intro a s ha hact b hb
    obtain ⟨m, _, hchain⟩ := Forest.outletChain_eq ha
    rw [hchain] at hb
    exact hf.leads_active (Slot.leads_of_mem_walk hb) ⟨s, ha, hact⟩

/-- A segment may be numbered zero; what names outlet zero still drains into the
wellhead. -/
theorem linkAll_zero_numbered :
    ∃ u, (ofRows [⟨0, -3, 1, {}⟩, ⟨-3, 0, 1, {}⟩, ⟨7, 0, 2, {}⟩, ⟨5, 9, 0, {}⟩,
      ⟨9, 0, 0, {}⟩]).linkAll = (.ok 2, u) ∧
      Linked (ofRows [⟨0, -3, 1, {}⟩, ⟨-3, 0, 1, {}⟩, ⟨7, 0, 2, {}⟩, ⟨5, 9, 0, {}⟩,
        ⟨9, 0, 0, {}⟩]) u := by
  have hlink : ∀ t : SegmentTable, t.linkAll.1 = .ok 2 → t.linkAll = (.ok 2, t.linkAll.2) :=
    fun t h => Prod.ext h rfl
  have h := hlink (ofRows [⟨0, -3, 1, {}⟩, ⟨-3, 0, 1, {}⟩, ⟨7, 0, 2, {}⟩, ⟨5, 9, 0, {}⟩,
    ⟨9, 0, 0, {}⟩]) (by decide +kernel)
  exact ⟨_, h, ((linkAll_ofRows _).2 2 _ h).2⟩

end SegmentTable

end Wellbore
