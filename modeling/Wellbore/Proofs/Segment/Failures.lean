import Mathlib.Order.Bounds.Defs
import Wellbore.Proofs.Segment.Forest

/-!
# What a failed linking complains of

Linking goes over the rows three times: it looks the outlets up, it asks whether a segment in
use drains into one that is not, and it follows every chain. The first pass that finds
something wrong ends it, and each pass names the first row it finds. So a failure has the
first of three causes that there is, at its first row, and all three can be read off the
numbers alone.

That the last pass names the first row, and not just some row, is a matter of its notes: a slot
is noted only if its chain ends, so a row that is passed over for a note was rightly passed
over (`cycleFrom?_cases`).

The first cause leaves the table as it was. The other two are found after the links have been
made, and these stay.
-/

namespace Wellbore

namespace SegmentTable

open Slot (Ends)

variable {t u : SegmentTable} {a : Slot} {s : Segment} {e : TopologyError}
  {rows : List SegmentRow}

/-! ## Causes that can be seen in the rows -/

/-- The segment names itself as its outlet, or a number that no segment has. -/
def Misnamed (t : SegmentTable) (a : Slot) : Prop :=
  ∃ s, t.get? a = some s ∧ s.outletId ≠ wellheadOutlet ∧
    (s.outletId = s.id ∨ ∀ o ∈ t.rows, o.id ≠ s.outletId)

/-- The segment is in use and names one that is not. -/
def Stranded (t : SegmentTable) (a : Slot) : Prop :=
  ∃ s, t.get? a = some s ∧ s.active = true ∧ s.outletId ≠ wellheadOutlet ∧
    ∃ o ∈ t.rows, o.id = s.outletId ∧ o.active = false

/-- Following the outlet numbers from the segment never comes to the wellhead. -/
def Circling (t : SegmentTable) (a : Slot) : Prop :=
  ∃ s, t.get? a = some s ∧ ¬ t.Drains s

/-- `u` is `t` with every segment linked to the one it names, and each link counted. -/
structure LinksMade (t u : SegmentTable) : Prop where
  written : u.written = t.written
  outlet : ∀ a s, u.get? a = some s → s.outletId ≠ wellheadOutlet →
    ∃ b o, s.outlet = some b ∧ u.get? b = some o ∧ o.id = s.outletId
  root : ∀ a s, u.get? a = some s → s.outletId = wellheadOutlet → s.outlet = none
  counted : ∀ a s, u.get? a = some s →
    s.linkCount = u.rows.countP fun r => r.outlet == some a

/-- The rows of `t` cannot be linked for this cause, and `u` is what is left behind. -/
inductive Unlinkable (t u : SegmentTable) : TopologyError → Prop where
  | selfOutlet {a : Slot} {s : Segment} (hs : t.get? a = some s)
      (first : IsLeast {a | t.Misnamed a} a) (itself : s.outletId = s.id) (kept : u = t) :
      Unlinkable t u (.selfOutlet s.id)
  | unknownOutlet {a : Slot} {s : Segment} (hs : t.get? a = some s)
      (first : IsLeast {a | t.Misnamed a} a) (other : s.outletId ≠ s.id) (kept : u = t) :
      Unlinkable t u (.unknownOutlet s.id s.outletId)
  | inactiveOutlet {a : Slot} {s : Segment} (hs : t.get? a = some s)
      (named : ∀ b, ¬ t.Misnamed b) (first : IsLeast {a | t.Stranded a} a)
      (left : LinksMade t u) : Unlinkable t u (.inactiveOutlet s.id s.outletId)
  | outletCycle {a : Slot} {s : Segment} (hs : t.get? a = some s)
      (named : ∀ b, ¬ t.Misnamed b) (inUse : ∀ b, ¬ t.Stranded b)
      (first : IsLeast {a | t.Circling a} a) (left : LinksMade t u) :
      Unlinkable t u (.outletCycle s.id t.size)

/-! ## The first row -/

section
variable {before after : List (Slot × Segment)} {p : Slot × Segment}

theorem get?_of_entries (hsplit : t.entries = before ++ p :: after) : t.get? p.1 = some p.2 :=
  mem_entries.mp (hsplit ▸ List.mem_append_right _ List.mem_cons_self)

/-- Where a search through the entries stops is the first slot that has the property. -/
theorem isLeast_of_entries {P : Slot → Prop} (hsplit : t.entries = before ++ p :: after)
    (hp : P p.1) (hbefore : ∀ q ∈ before, t.get? q.1 = some q.2 → ¬ P q.1)
    (hin : ∀ b, P b → b < t.size) : IsLeast {b | P b} p.1 := by
  refine ⟨hp, fun b hb => ?_⟩
  obtain ⟨r, hr⟩ := get?_of_lt (hin b hb)
  have hmem := mem_entries.mpr hr
  have hsorted := pairwise_entries t
  rw [hsplit] at hmem hsorted
  obtain ⟨-, hafter, -⟩ := List.pairwise_append.mp hsorted
  rcases List.mem_append.mp hmem with hmem | hmem
  · exact absurd hb (hbefore _ hmem hr)
  · rcases List.mem_cons.mp hmem with heq | hmem
    · rw [← heq]
    · exact Nat.le_of_lt (List.rel_of_pairwise_cons hafter hmem)

end

/-! ## Outlets that cannot be found -/

theorem misnamed_iff (ha : t.get? a = some s) : t.Misnamed a ↔ ¬ t.Findable s := by
  simp only [Misnamed, ha, Option.some.injEq, exists_eq_left']
  rw [Findable, not_or, not_and_or, Ne, Ne, not_not]
  simp only [not_exists, not_and]

theorem forall_findable_iff : (∀ s ∈ t.rows, t.Findable s) ↔ ∀ b, ¬ t.Misnamed b := by
  constructor
  · intro h b hb
    obtain ⟨s, hs, -⟩ := id hb
    exact (misnamed_iff hs).mp hb (h s (mem_rows.mpr ⟨b, hs⟩))
  · intro h s hs
    obtain ⟨b, hb⟩ := mem_rows.mp hs
    by_contra hno
    exact h b ((misnamed_iff hb).mpr hno)

/-- An outlet that cannot be found is complained of before anything is linked. -/
theorem linkAll_of_misnamed (h : ¬ ∀ s ∈ t.rows, t.Findable s) :
    ∃ a s, t.get? a = some s ∧ IsLeast {a | t.Misnamed a} a ∧
      t.linkAll = (.error (.topology (misnaming s)), t) := by
  simp only [not_forall] at h
  obtain ⟨s, hmem, hnot⟩ := h
  obtain ⟨a, ha⟩ := mem_rows.mp hmem
  obtain ⟨before, p, after, hsplit, hbefore, hp, he⟩ :=
    targets_of_not_findable ⟨(a, s), mem_entries.mpr ha, hnot⟩
  have hpget := get?_of_entries hsplit
  refine ⟨p.1, p.2, hpget, isLeast_of_entries hsplit ((misnamed_iff hpget).mpr hp) ?_ ?_, ?_⟩
  · exact fun q hq hqget hmis => (misnamed_iff hqget).mp hmis (hbefore q hq)
  · rintro b ⟨r, hr, -⟩
    exact get?_lt hr
  · rw [linkAll, he]

/-! ## Segments that are not in use -/

/-- The segment is in use and linked to one that is not. -/
def Draining (u : SegmentTable) (a : Slot) : Prop :=
  ∃ s o, u.get? a = some s ∧ s.active = true ∧ s.outlet.bind u.get? = some o ∧ o.active = false

theorem inactiveOutlet?_eq_some (h : u.inactiveOutlet? = some e) :
    ∃ a s o, u.get? a = some s ∧ s.outlet.bind u.get? = some o ∧
      IsLeast {a | u.Draining a} a ∧ e = .inactiveOutlet s.id o.id := by
  rw [inactiveOutlet?, ← entries_map_snd, List.findSome?_map, List.findSome?_eq_some_iff] at h
  obtain ⟨before, p, after, hsplit, hp, hbefore⟩ := h
  have hpget := get?_of_entries hsplit
  dsimp only [Function.comp_apply] at hp hbefore
  split at hp
  next hact =>
    split at hp
    next o ho =>
      split at hp
      next => cases hp
      next hunused =>
        have hdraining : u.Draining p.1 :=
          ⟨p.2, o, hpget, hact, ho, Bool.eq_false_iff.mpr hunused⟩
        refine ⟨p.1, p.2, o, hpget, ho, isLeast_of_entries hsplit hdraining ?_ ?_,
          (Option.some.inj hp).symm⟩
        · rintro q hq hqget ⟨r, o', hr, hract, ho', hunused'⟩
          rw [hqget, Option.some.injEq] at hr
          have hnone := hbefore q hq
          rw [hr, if_pos hract] at hnone
          simp only [ho', hunused'] at hnone
          cases hnone
        · rintro b ⟨r, -, hr, -⟩
          exact get?_lt hr
    next => cases hp
  next => cases hp

theorem Resolved.draining_iff (hr : Resolved t u)
    (hfree : ∀ a, t.outletSlot? a = none) : u.Draining a ↔ t.Stranded a := by
  constructor
  · rintro ⟨s, o, ha, hact, ho, hunused⟩
    obtain ⟨b, hb, hget⟩ := Option.bind_eq_some_iff.mp ho
    obtain ⟨s', ha', hrow⟩ := get?_of_written hr.written.symm ha
    obtain ⟨o', hb', hrow'⟩ := get?_of_written hr.written.symm hget
    obtain ⟨hw, o'', hb'', hid⟩ :=
      (hr.outlet_iff hfree ha').mp ((outletSlot?_of_get? ha).trans hb)
    rw [hb', Option.some.injEq] at hb''
    rw [← hb''] at hid
    exact ⟨s', ha', (active_of_row hrow).trans hact, hw, o', mem_rows.mpr ⟨b, hb'⟩, hid,
      (active_of_row hrow').trans hunused⟩
  · rintro ⟨s, ha, hact, hw, o, ho, hid, hunused⟩
    obtain ⟨b, hb⟩ := mem_rows.mp ho
    obtain ⟨s', ha', hrow⟩ := get?_of_written hr.written ha
    obtain ⟨o', hb', hrow'⟩ := get?_of_written hr.written hb
    have hout := (hr.outlet_iff hfree ha).mpr ⟨hw, o, hb, hid⟩
    rw [outletSlot?_of_get? ha'] at hout
    refine ⟨s', o', ha', (active_of_row hrow).trans hact, ?_, (active_of_row hrow').trans hunused⟩
    rw [hout, Option.bind_some, hb']

/-! ## Chains that do not end -/

theorem Resolved.circling_iff (hr : Resolved t u)
    (hfree : ∀ a, t.outletSlot? a = none) (hf : ∀ s ∈ t.rows, t.Findable s)
    (ha : t.get? a = some s) : t.Circling a ↔ ¬ Ends u.outletSlot? a := by
  simp only [Circling, ha, Option.some.injEq, exists_eq_left']
  refine not_congr ⟨fun hd => ends_of_drains hr hfree hd ha, ?_⟩
  rintro ⟨k, hk⟩
  exact drains_of_ends hr hfree hf hk ha

theorem Resolved.outletCycle?_eq_some (hr : Resolved t u)
    (hfree : ∀ a, t.outletSlot? a = none) (hf : ∀ s ∈ t.rows, t.Findable s)
    (h : u.outletCycle? = some e) :
    ∃ a s, t.get? a = some s ∧ IsLeast {a | t.Circling a} a ∧ e = .outletCycle s.id t.size := by
  have hin : ∀ p ∈ u.entries, p.1 < u.size := fun p hp => get?_lt (mem_entries.mp hp)
  have hnoted : u.Settled (Array.replicate u.size false) := .none_noted
  rw [outletCycle?] at h
  rcases cycleFrom?_cases hr.sound hin hnoted with
    ⟨-, hnone⟩ | ⟨before, p, after, hsplit, hbefore, hp, hsome⟩
  · rw [hnone] at h
    cases h
  · rw [hsome, Option.some.injEq] at h
    obtain ⟨s, hpget, hrow⟩ := get?_of_written hr.written.symm (get?_of_entries hsplit)
    refine ⟨p.1, s, hpget, isLeast_of_entries hsplit
      ((hr.circling_iff hfree hf hpget).mpr hp) ?_ ?_, ?_⟩
    · intro q hq hqget hcircling
      obtain ⟨s', hqget', -⟩ := get?_of_written hr.written.symm hqget
      exact (hr.circling_iff hfree hf hqget').mp hcircling (hbefore q hq)
    · rintro b ⟨r, hr', -⟩
      rw [size_eq_of_written hr.written]
      exact get?_lt hr'
    · rw [← h, ← hrow, size_eq_of_written hr.written]

/-! ## Failures -/

theorem Resolved.linksMade (hr : Resolved t u) (hfree : ∀ a, t.outletSlot? a = none)
    (hf : ∀ s ∈ t.rows, t.Findable s) : LinksMade t u where
  written := hr.written
  outlet a s ha hw := by
    obtain ⟨b, hb⟩ := hr.linked hf ha hw
    obtain ⟨s', o, ha', ho, hid, -⟩ := hr.sound.matched ((outletSlot?_of_get? ha).trans hb)
    rw [ha, Option.some.injEq] at ha'
    rw [← ha'] at hid
    exact ⟨b, o, hb, ho, hid⟩
  root a s ha hw := by
    obtain ⟨s', ha', hrow⟩ := get?_of_written hr.written.symm ha
    have hout := hr.outlet ha'
    rw [if_pos (nearestWellhead_iff.mpr (by rw [hrow]; exact hw)), hfree] at hout
    rw [← outletSlot?_of_get? ha, hout]
  counted _ _ ha := hr.sound.counted ha

/-- What is wrong with the links of a table is wrong with its numbers. -/
theorem Resolved.unlinkable (hr : Resolved t u)
    (hfree : ∀ a, t.outletSlot? a = none) (hf : ∀ s ∈ t.rows, t.Findable s)
    (h : u.linkFault? = some e) : Unlinkable t u e := by
  have hnamed := forall_findable_iff.mp hf
  have hmade := hr.linksMade hfree hf
  have hstranded : {a | u.Draining a} = {a | t.Stranded a} :=
    Set.ext fun _ => hr.draining_iff hfree
  rw [linkFault?, Option.or_eq_some_iff] at h
  rcases h with h | ⟨hnone, h⟩
  · obtain ⟨a, s, o, ha, ho, hfirst, rfl⟩ := inactiveOutlet?_eq_some h
    obtain ⟨b, hb, hget⟩ := Option.bind_eq_some_iff.mp ho
    obtain ⟨s', ha', hrow⟩ := get?_of_written hr.written.symm ha
    obtain ⟨s'', o', hs'', ho', hid, -⟩ := hr.sound.matched ((outletSlot?_of_get? ha).trans hb)
    rw [ha, Option.some.injEq] at hs''
    rw [hget, Option.some.injEq] at ho'
    rw [hstranded] at hfirst
    rw [ho', hid, ← hs'', ← hrow]
    exact .inactiveOutlet ha' hnamed hfirst hmade
  · have hinUse : ∀ b, ¬ t.Stranded b := by
      intro b hb
      obtain ⟨s, o, ha, hact, ho, hunused⟩ := (hr.draining_iff hfree).mpr hb
      obtain ⟨c, hc, hget⟩ := Option.bind_eq_some_iff.mp ho
      rw [inactiveOutlet?_eq_none.mp hnone _ _ _ _ ha hc hget hact] at hunused
      cases hunused
    obtain ⟨a, s, ha, hfirst, rfl⟩ := hr.outletCycle?_eq_some hfree hf h
    exact .outletCycle ha hnamed hinUse hfirst hmade

/-- A freshly filled table that is not linked is refused for what its rows say, never because a
link could not be made. -/
theorem unlinkable_of_linkAll {failure : LinkFailure}
    (h : (ofRows rows).linkAll = (.error failure, u)) :
    ∃ cause, failure = .topology cause ∧ Unlinkable (ofRows rows) u cause := by
  have hs := sound_ofRows rows
  have hfree := outletSlot?_ofRows rows
  rcases linkAll_cases hs with ⟨hno, -⟩ | ⟨hf, v, hr, ⟨e, hfault, he⟩ | ⟨-, hok⟩⟩
  · obtain ⟨a, s, ha, hfirst, he⟩ := linkAll_of_misnamed hno
    rw [h, Prod.mk.injEq, Except.error.injEq] at he
    obtain ⟨hcause, hkept⟩ := he
    refine ⟨misnaming s, hcause, ?_⟩
    unfold misnaming
    split
    next hself => exact .selfOutlet ha hfirst hself hkept
    next hother => exact .unknownOutlet ha hfirst hother hkept
  · rw [h, Prod.mk.injEq, Except.error.injEq] at he
    obtain ⟨hcause, hleft⟩ := he
    rw [hleft]
    exact ⟨e, hcause, hr.unlinkable hfree hf hfault⟩
  · rw [h, Prod.mk.injEq] at hok
    cases hok.1

/-- The second and the third row lead into a ring; neither is on it, and neither is in use. -/
theorem unlinkable_of_linkAll_intoRing :
    let rows : List SegmentRow := [⟨1, 0, 1, {}⟩, ⟨6, 3, 0, {}⟩, ⟨2, 6, 0, {}⟩, ⟨3, 4, 0, {}⟩,
      ⟨4, 3, 0, {}⟩, ⟨1, 9, 1, {}⟩]
    ∃ u, (ofRows rows).linkAll = (.error (.topology (.outletCycle 6 5)), u) ∧
      Unlinkable (ofRows rows) u (.outletCycle 6 5) := by
  intro rows
  have h : (ofRows rows).linkAll =
      (.error (.topology (.outletCycle 6 5)), (ofRows rows).linkAll.2) :=
    linkAll_eq (by decide +kernel)
  obtain ⟨cause, hcause, hunlinkable⟩ := unlinkable_of_linkAll h
  rw [LinkFailure.topology.injEq] at hcause
  rw [← hcause] at hunlinkable
  exact ⟨_, h, hunlinkable⟩

end SegmentTable

end Wellbore
