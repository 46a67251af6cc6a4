import Mathlib.Order.Bounds.Basic
import Wellbore.Proofs.Segment.Failures
import Wellbore.Proofs.Segment.WellheadLinks

/-!
# Linking what has been linked before

Linking a whole table comes to the same whatever was linked in it before, and however often.
A link that is there can only be the one that the numbers ask for, and it is not counted again;
so the links that are made, and their counts, are a matter of the rows. The judgement of the
links comes after they have all been made, and looks at nothing else.

This fails at the wellhead. A segment that drains there asks for no link, so one that it was
given by hand stays. Without a segment of the wellhead's number it cannot be given one, and
every table that has the rows is as good as the one that was only filled (`linkAll_congr`).
-/

namespace Wellbore

/-- The call inserts no row. -/
def TableCall.LinksOnly : TableCall → Prop
  | .insert _ => False
  | .link _ _ | .linkMatching _ _ | .linkAll => True

/-- Linking has failed at an outlet that cannot be found, before anything was linked. -/
def Misnames {α : Type} (result : Except LinkFailure α) : Prop :=
  (∃ id, result = .error (.topology (.selfOutlet id))) ∨
    ∃ id outlet, result = .error (.topology (.unknownOutlet id outlet))

namespace SegmentTable

variable {t t' u u' : SegmentTable} {a : Slot} {s : Segment} {e : TopologyError}
  {rows : List SegmentRow} {calls : List TableCall}

/-- The table after some calls. -/
def afterAll (t : SegmentTable) (calls : List TableCall) : SegmentTable := calls.foldl after t

theorem changes_afterAll (t : SegmentTable) (calls : List TableCall) :
    Relation.ReflTransGen (Changes Segment.IsNew) t (t.afterAll calls) := by
  induction calls generalizing t with
  | nil => exact .refl
  | cons c rest ih => exact (changes_after_row t c).trans (ih _)

/-! ## One table for the rows and the links -/

/-- In a sound table the counts follow from the links. -/
theorem Sound.ext_links (ht : t.Sound) (hu : u.Sound) (hw : t.written = u.written)
    (ho : ∀ a, t.outletSlot? a = u.outletSlot? a) : t = u := by
  have hfeeders : ∀ a, t.feeders a = u.feeders a := fun a => by
    rw [feeders_eq_linkedSince, feeders_eq_linkedSince, linkedSince, linkedSince,
      size_eq_of_written hw, funext ho]
  refine ext_written hw ho fun a => ?_
  by_cases ha : a < t.size
  · obtain ⟨s, hs⟩ := get?_of_lt ha
    obtain ⟨o, ho, -⟩ := get?_of_written hw.symm hs
    rw [hs, ho, Option.map_some, Option.map_some, ht.counted hs, hu.counted ho,
      hfeeders]
  · have hnot := Nat.le_of_not_lt ha
    rw [get?_eq_none hnot, get?_eq_none (size_eq_of_written hw ▸ hnot)]

/-- Linking makes one and the same table of all that have the same rows. -/
theorem Resolved.eq_of_written (ht : Resolved t t') (hu : Resolved u u')
    (hw : u.written = t.written) (hopen : t.WellheadOpen) (hopen' : u.WellheadOpen) :
    u' = t' := by
  have hw' : u'.written = t'.written := by rw [hu.written, hw, ht.written]
  refine hu.sound.ext_links ht.sound hw' fun a => ?_
  by_cases ha : a < t.size
  · obtain ⟨s, hs⟩ := get?_of_lt ha
    obtain ⟨o, ho, hrow⟩ := get?_of_written hw hs
    rw [ht.outlet hs, hu.outlet ho, Segment.nearestWellhead, Segment.nearestWellhead, hrow]
    split
    next hat =>
      have hid := beq_iff_eq.mp hat
      rw [hopen a ⟨s, hs, hid⟩, hopen' a ⟨o, ho, by rw [hrow]; exact hid⟩]
    next => exact slotOf?_congr hw
  · have hnone : ∀ {v : SegmentTable}, v.size = t.size → v.outletSlot? a = none := fun hsize => by
      rw [outletSlot?, get?_eq_none (hsize ▸ Nat.le_of_not_lt ha), Option.bind_none]
    rw [hnone (size_eq_of_written ht.written), hnone (size_eq_of_written (hu.written.trans hw))]

/-! ## How linking can fail -/

theorem misnames_misnaming {α : Type} (s : Segment) :
    Misnames (α := α) (.error (.topology (misnaming s))) := by
  unfold misnaming
  split
  · exact .inl ⟨_, rfl⟩
  · exact .inr ⟨_, _, rfl⟩

/-- What can be wrong with links is not that an outlet was not found. -/
theorem not_misnames_of_linkFault? {α : Type} (hs : u.Sound) (h : u.linkFault? = some e) :
    ¬ Misnames (α := α) (.error (.topology e)) := by
  have hcause : (∃ id outlet, e = .inactiveOutlet id outlet) ∨
      ∃ id limit, e = .outletCycle id limit := by
    rw [linkFault?, Option.or_eq_some_iff] at h
    rcases h with h | ⟨-, h⟩
    · obtain ⟨_, s, o, -, -, -, he⟩ := inactiveOutlet?_eq_some h
      exact .inl ⟨_, _, he⟩
    · rcases cycleFrom?_cases hs (fun p hp => get?_lt (mem_entries.mp hp))
        (.none_noted (t := u) (n := u.size)) with ⟨-, hnone⟩ | ⟨_, p, _, -, -, -, hsome⟩
      · rw [outletCycle?, hnone] at h
        cases h
      · rw [outletCycle?, hsome, Option.some.injEq] at h
        exact .inr ⟨_, _, h.symm⟩
  rintro (⟨id, hid⟩ | ⟨id, outlet, hid⟩)
  · rcases hcause with ⟨_, _, rfl⟩ | ⟨_, _, rfl⟩ <;> cases hid
  · rcases hcause with ⟨_, _, rfl⟩ | ⟨_, _, rfl⟩ <;> cases hid

theorem Misnamed.written (h : t.Misnamed a) (hw : u.written = t.written) : u.Misnamed a := by
  obtain ⟨s, hs, hwell, hcause⟩ := h
  obtain ⟨s', hs', hrow⟩ := get?_of_written hw hs
  refine ⟨s', hs', by rw [hrow]; exact hwell, ?_⟩
  rw [hrow]
  refine hcause.imp_right fun hnone o ho => ?_
  obtain ⟨b, hb⟩ := mem_rows.mp ho
  obtain ⟨o', ho', hrow'⟩ := get?_of_written hw.symm hb
  rw [← hrow']
  exact hnone o' (mem_rows.mpr ⟨b, ho'⟩)

/-! ## Linking again -/

/-- Two tables with the same rows are linked alike, if nothing leads away from the wellhead:
the result is one and the same, and so is the table after unless neither was changed. -/
theorem linkAll_congr (ht : t.Sound) (hu : u.Sound) (hw : u.written = t.written)
    (hopen : t.WellheadOpen) (hopen' : u.WellheadOpen) :
    u.linkAll.1 = t.linkAll.1 ∧ (¬ Misnames t.linkAll.1 ∧ u.linkAll.2 = t.linkAll.2 ∨
      Misnames t.linkAll.1 ∧ u.linkAll.2 = u) := by
  have hmisnamed : {a | u.Misnamed a} = {a | t.Misnamed a} :=
    Set.ext fun _ => ⟨fun h => h.written hw.symm, fun h => h.written hw⟩
  have hfindable : (∀ s ∈ u.rows, u.Findable s) ↔ ∀ s ∈ t.rows, t.Findable s := by
    rw [forall_findable_iff, forall_findable_iff]
    exact forall_congr' fun b => not_congr (Set.ext_iff.mp hmisnamed b)
  rcases linkAll_cases ht with ⟨hno, -⟩ | ⟨hf, t', hres, hend⟩
  · -- both complain of the first row that is misnamed
    obtain ⟨a, s, hs, hfirst, hlink⟩ := linkAll_of_misnamed hno
    obtain ⟨b, o, ho, hfirst', hlink'⟩ := linkAll_of_misnamed fun h => hno (hfindable.mp h)
    rw [hmisnamed] at hfirst'
    rw [hfirst'.unique hfirst] at ho
    obtain ⟨o', ho', hrow⟩ := get?_of_written hw hs
    rw [ho, Option.some.injEq] at ho'
    have hsame : misnaming o = misnaming s := by
      rw [ho', misnaming, misnaming, hrow]
    rw [hlink, hlink', hsame]
    exact ⟨rfl, .inr ⟨misnames_misnaming s, rfl⟩⟩
  · rcases linkAll_cases hu with ⟨hno, -⟩ | ⟨-, u', hres', hend'⟩
    · exact absurd (hfindable.mpr hf) hno
    · obtain rfl := hres.eq_of_written hres' hw hopen hopen'
      have hcount : (u.rows.countP fun s => s.outletId != wellheadOutlet) =
          t.rows.countP fun s => s.outletId != wellheadOutlet := by
        have h := congrArg (List.countP fun r : SegmentRow => r.outletId != wellheadOutlet) hw
        rw [written, written, List.countP_map, List.countP_map, Array.countP_toList,
          Array.countP_toList] at h
        exact h
      rcases hend with ⟨e, hfault, hlink⟩ | ⟨hfault, hlink⟩
      · rcases hend' with ⟨e', hfault', hlink'⟩ | ⟨hfault', -⟩
        · rw [hfault, Option.some.injEq] at hfault'
          rw [hlink, hlink', hfault']
          exact ⟨rfl, .inl ⟨hfault' ▸ not_misnames_of_linkFault? hres.sound hfault, rfl⟩⟩
        · rw [hfault] at hfault'
          cases hfault'
      · rcases hend' with ⟨e', hfault', -⟩ | ⟨-, hlink'⟩
        · rw [hfault] at hfault'
          cases hfault'
        · rw [hlink, hlink', hcount]
          refine ⟨rfl, .inl ⟨?_, rfl⟩⟩
          rintro (⟨_, hid⟩ | ⟨_, _, hid⟩) <;> cases hid

/-! ## Any run of links -/

/-- Links leave the rows as they were read. -/
theorem written_after {c : TableCall} (hs : t.Sound) (hc : c.LinksOnly) :
    (t.after c).written = t.written := by
  cases c with
  | insert r => exact hc.elim
  | link a b => exact written_link t a b
  | linkMatching a b =>
      rw [after, linkMatching?_getD]
      exact written_link t a b
  | linkAll =>
      rcases linkAll_cases hs with ⟨-, e, h⟩ | ⟨-, u, hu, ⟨e, -, h⟩ | ⟨-, h⟩⟩ <;> rw [after, h]
      · exact hu.written
      · exact hu.written

theorem Sound.afterAll (hs : t.Sound) (hcalls : ∀ c ∈ calls, c.LinksOnly) :
    (t.afterAll calls).Sound ∧ (t.afterAll calls).written = t.written := by
  induction calls generalizing t with
  | nil => exact ⟨hs, rfl⟩
  | cons c rest ih =>
      obtain ⟨hc, hrest⟩ := List.forall_mem_cons.mp hcalls
      obtain ⟨hsound, hw⟩ := ih (hs.changes (changes_after_row t c)).1 hrest
      exact ⟨hsound, hw.trans (written_after hs hc)⟩

/-- Whatever was linked before, by single links or as a whole, fitting or not: linking the table
has the result that it has at once. The links and their counts are then the same too; only
an outlet that cannot be found leaves what was there. -/
theorem linkAll_afterAll (hfree : (ofRows rows).slotOf? wellheadOutlet = none)
    (hcalls : ∀ c ∈ calls, c.LinksOnly) :
    ((ofRows rows).afterAll calls).linkAll.1 = (ofRows rows).linkAll.1 ∧
    (¬ Misnames (ofRows rows).linkAll.1 →
      ((ofRows rows).afterAll calls).linkAll.2 = (ofRows rows).linkAll.2) ∧
    (Misnames (ofRows rows).linkAll.1 →
      ((ofRows rows).afterAll calls).linkAll.2 = (ofRows rows).afterAll calls) := by
  have hs := sound_ofRows rows
  obtain ⟨hsound, hw⟩ := hs.afterAll hcalls
  have hfree' : ((ofRows rows).afterAll calls).slotOf? wellheadOutlet = none :=
    (slotOf?_congr hw).trans hfree
  obtain ⟨hresult, ⟨hfound, hsame⟩ | ⟨hnot, hkept⟩⟩ :=
    linkAll_congr hs hsound hw (hs.wellheadOpen hfree) (hsound.wellheadOpen hfree')
  · exact ⟨hresult, fun _ => hsame, fun h => absurd h hfound⟩
  · exact ⟨hresult, fun h => absurd hnot h, fun _ => hkept⟩

/-- A ring beside the main bore. -/
def besideRing : List SegmentRow :=
  [⟨1, 0, 1, {}⟩, ⟨2, 1, 1, {}⟩, ⟨3, 4, 2, {}⟩, ⟨4, 3, 2, {}⟩]

/-- Links by hand, some of which do not fit, before a linking of the whole table and after. -/
def handLinks : List TableCall :=
  [.link 1 0, .link 0 1, .linkAll, .link 1 0, .linkMatching 3 0, .link 9 0, .linkAll]

/-- With the ring the links are made each time and refused each time. With a further row that
names no other they are never made as a whole, and the one made by hand stays. -/
theorem linkAll_afterAll_handLinks :
    (ofRows besideRing).linkAll.1 = .error (.topology (.outletCycle 3 4)) ∧
    ((ofRows besideRing).afterAll handLinks).linkAll = (ofRows besideRing).linkAll ∧
    (ofRows (besideRing ++ [⟨5, 7, 1, {}⟩])).linkAll.1 =
      .error (.topology (.unknownOutlet 5 7)) ∧
    ((ofRows (besideRing ++ [⟨5, 7, 1, {}⟩])).afterAll handLinks).linkAll.2 =
      (ofRows (besideRing ++ [⟨5, 7, 1, {}⟩])).afterAll handLinks := by
  have hcalls : ∀ c ∈ handLinks, c.LinksOnly := by simp [handLinks, TableCall.LinksOnly]
  have hring : (ofRows besideRing).linkAll.1 = .error (.topology (.outletCycle 3 4)) := by
    decide +kernel
  have hlost : (ofRows (besideRing ++ [⟨5, 7, 1, {}⟩])).linkAll.1 =
      .error (.topology (.unknownOutlet 5 7)) := by decide +kernel
  have hfound : ¬ Misnames (ofRows besideRing).linkAll.1 := by
    rw [hring]
    rintro (⟨_, h⟩ | ⟨_, _, h⟩) <;> cases h
  obtain ⟨hresult, hmade, -⟩ := @linkAll_afterAll besideRing handLinks (by decide +kernel) hcalls
  obtain ⟨-, -, hkept⟩ := @linkAll_afterAll (besideRing ++ [⟨5, 7, 1, {}⟩]) handLinks
    (by decide +kernel) hcalls
  exact ⟨hring, Prod.ext hresult (hmade hfound), hlost, hkept (.inr ⟨5, 7, hlost⟩)⟩

end SegmentTable

end Wellbore
