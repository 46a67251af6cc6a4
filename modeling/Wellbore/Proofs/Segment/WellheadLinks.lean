import Mathlib.Data.List.Infix
import Wellbore.Proofs.Segment.Calls
import Wellbore.Proofs.Segment.Linking

/-!
# Outlets of segments at the wellhead

The outlet number that stands for the wellhead is a number like any other, and a segment
may have it for its own. Linking a whole table asks for the wellhead first, so it leaves
the segments that drain there as they are. Linking two slots only compares numbers: a
segment at the wellhead is linked to one that has the wellhead's number, if that is what is
asked for. Such a call is the one way in which a segment at the wellhead gets an outlet,
and there is no such call as long as no segment has the number.
-/

namespace Wellbore

namespace SegmentTable

variable {t u : SegmentTable} {a b : Slot}

/-- The segment at a slot drains into the wellhead. -/
def AtWellhead (t : SegmentTable) (a : Slot) : Prop :=
  ∃ s, t.get? a = some s ∧ s.outletId = wellheadOutlet

/-- No segment that drains into the wellhead has an outlet. -/
def WellheadOpen (t : SegmentTable) : Prop :=
  ∀ a, t.AtWellhead a → t.outletSlot? a = none

/-- The call asks for a link from a segment that drains into the wellhead, and the numbers
match. -/
def LinksWellhead (t : SegmentTable) : TableCall → Prop
  | .link a b | .linkMatching a b => t.Matches a b ∧ t.AtWellhead a
  | .insert _ | .linkAll => False

/-! ## One call -/

theorem AtWellhead.written (h : t.AtWellhead a) (hw : u.written = t.written) :
    u.AtWellhead a := by
  obtain ⟨s, ha, hs⟩ := h
  obtain ⟨s', ha', hrow⟩ := get?_of_written hw ha
  exact ⟨s', ha', by rw [hrow]; exact hs⟩

theorem wellheadOpen_congr (hw : u.written = t.written)
    (ho : ∀ a, t.AtWellhead a → u.outletSlot? a = t.outletSlot? a) :
    u.WellheadOpen ↔ t.WellheadOpen := by
  refine ⟨fun h a ha => ?_, fun h a ha => ?_⟩
  · rw [← ho a ha]
    exact h a (ha.written hw)
  · have ha' := ha.written hw.symm
    rw [ho a ha']
    exact h a ha'

theorem wellheadOpen_push {s : Segment} (hnew : s.IsNew) (free : t.slotOf? s.id = none) :
    (t.push s free).WellheadOpen ↔ t.WellheadOpen := by
  have hout : ∀ a, (t.push s free).outletSlot? a = t.outletSlot? a := by
    intro a
    rw [outletSlot?_push]
    split
    next ha => rw [hnew.1, outletSlot?, get?_eq_none (Nat.le_of_eq ha.symm), Option.bind_none]
    next => rfl
  refine ⟨fun hopen a ha => ?_, fun hopen a ha => ?_⟩
  · obtain ⟨s', hs, hid⟩ := ha
    rw [← hout]
    refine hopen a ⟨s', ?_, hid⟩
    rw [get?_push, if_neg (Nat.ne_of_lt (get?_lt hs)), hs]
  · rw [hout]
    obtain ⟨s', hs, hid⟩ := ha
    rw [get?_push] at hs
    split at hs
    next ha => rw [outletSlot?, get?_eq_none (Nat.le_of_eq ha.symm), Option.bind_none]
    next => exact hopen a ⟨s', hs, hid⟩

theorem wellheadOpen_link (hs : t.Sound) (a b : Slot) :
    (t.link a b).2.WellheadOpen ↔ t.WellheadOpen ∧ ¬ (t.Matches a b ∧ t.AtWellhead a) := by
  rcases link_cases t a b with ⟨hno, h⟩ | ⟨-, hlinked, h⟩ | ⟨hm, hne, h⟩ <;> rw [h]
  · exact ⟨fun hopen => ⟨hopen, fun hm => hno hm.1⟩, fun hopen => hopen.1⟩
  · refine ⟨fun hopen => ⟨hopen, fun hm => ?_⟩, fun hopen => hopen.1⟩
    rw [hopen a hm.2] at hlinked
    cases hlinked
  · have hnone := hs.outletSlot?_of_matches hm hne
    have ha : a < t.size := by
      obtain ⟨s, -, ha, -⟩ := hm
      exact get?_lt ha
    by_cases hat : t.AtWellhead a
    · -- the new link starts at the wellhead
      refine ⟨fun hopen => ?_, fun hopen => absurd ⟨hm, hat⟩ hopen.2⟩
      have hout := hopen a (hat.written written_setOutlet)
      rw [outletSlot?_setOutlet ha, if_pos rfl] at hout
      cases hout
    · have hcongr := wellheadOpen_congr (written_setOutlet (t := t) (a := a) (b := b))
        fun x hx => by
          rw [outletSlot?_setOutlet ha, if_neg]
          rintro rfl
          exact hat hx
      exact hcongr.trans ⟨fun hopen => ⟨hopen, fun hm => hat hm.2⟩, fun hopen => hopen.1⟩

/-- Linking the whole table leaves the segments at the wellhead as they are, however it
ends. -/
theorem wellheadOpen_linkAll (hs : t.Sound) : t.linkAll.2.WellheadOpen ↔ t.WellheadOpen := by
  have hresolved : ∀ {u}, Resolved t u → (u.WellheadOpen ↔ t.WellheadOpen) := by
    intro u hu
    refine wellheadOpen_congr hu.written fun a ha => ?_
    obtain ⟨s, ha, hid⟩ := ha
    rw [hu.outlet ha, if_pos (nearestWellhead_iff.mpr hid)]
  rcases linkAll_cases hs with ⟨-, e, h⟩ | ⟨-, u, hu, ⟨e, -, h⟩ | ⟨-, h⟩⟩ <;> rw [h]
  · exact hresolved hu
  · exact hresolved hu

theorem wellheadOpen_after (hs : t.Sound) (c : TableCall) :
    (t.after c).WellheadOpen ↔ t.WellheadOpen ∧ ¬ t.LinksWellhead c := by
  cases c with
  | insert r =>
      rw [LinksWellhead, not_false_eq_true, and_true]
      rcases after_insert t r with h | ⟨free, -, h⟩ <;> rw [h]
      exact wellheadOpen_push r.isNew_segment free
  | link a b => exact wellheadOpen_link hs a b
  | linkMatching a b =>
      rw [after, linkMatching?_getD]
      exact wellheadOpen_link hs a b
  | linkAll => rw [after, wellheadOpen_linkAll hs, LinksWellhead, not_false_eq_true, and_true]

/-! ## Any run of calls -/

theorem wellheadOpen_empty : WellheadOpen {} := fun _ _ => rfl

/-- A link leads to a segment with the number that is named, so without a segment of the
wellhead's number nothing leads away from the wellhead. -/
theorem Sound.wellheadOpen (hs : t.Sound) (hfree : t.slotOf? wellheadOutlet = none) :
    t.WellheadOpen := by
  intro a ha
  obtain ⟨s, hget, hid⟩ := ha
  cases hout : t.outletSlot? a with
  | none => rfl
  | some b =>
      obtain ⟨s', o, hs', ho, hnamed, -⟩ := hs.matched hout
      rw [hget, Option.some.injEq] at hs'
      rw [← hs', hid] at hnamed
      rw [slotOf?_eq_some.mpr ⟨o, ho, hnamed⟩] at hfree
      cases hfree

/-- After any run of calls the segments that drain into the wellhead are without an outlet
exactly if no call linked one of them; that is so if no segment has the wellhead's number. -/
theorem wellheadOpen_ofCalls (calls : List TableCall) :
    ((ofCalls calls).WellheadOpen ↔
      ∀ before c, before ++ [c] <+: calls → ¬ (ofCalls before).LinksWellhead c) ∧
    ((ofCalls calls).slotOf? wellheadOutlet = none → (ofCalls calls).WellheadOpen) := by
  refine ⟨?_, (sound_ofCalls calls).wellheadOpen⟩
  induction calls using List.reverseRecOn with
  | nil =>
      refine ⟨fun _ before c hpart => ?_, fun _ => wellheadOpen_empty⟩
      simp at hpart
  | append_singleton calls c ih =>
      rw [ofCalls_append, wellheadOpen_after (sound_ofCalls calls), ih]
      refine ⟨fun h before c' hpart => ?_, fun h => ⟨fun before c' hpart => ?_, ?_⟩⟩
      · rcases List.prefix_concat_iff.mp hpart with hall | hpart
        · obtain ⟨rfl, hc⟩ := List.append_inj' hall rfl
          cases hc
          exact h.2
        · exact h.1 before c' hpart
      · exact h before c' (hpart.trans (List.prefix_append calls [c]))
      · exact h calls c (List.prefix_refl _)

/-- A segment that has the wellhead's number can be made the outlet of one that drains into
the wellhead. -/
theorem outlet_at_wellhead :
    ∃ s, (ofCalls [.insert ⟨0, 0, 1, {}⟩, .insert ⟨1, 0, 1, {}⟩, .link 1 0]).get? 1 = some s ∧
      s.outletId = wellheadOutlet ∧ s.outlet = some 0 := by
  have hrow : ((ofCalls [.insert ⟨0, 0, 1, {}⟩, .insert ⟨1, 0, 1, {}⟩, .link 1 0]).get? 1).map
      (fun s => (s.outletId, s.outlet)) = some (wellheadOutlet, some 0) := by decide +kernel
  obtain ⟨s, hs, hpair⟩ := Option.map_eq_some_iff.mp hrow
  exact ⟨s, hs, congrArg Prod.fst hpair, congrArg Prod.snd hpair⟩

end SegmentTable

end Wellbore
