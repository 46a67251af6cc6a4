import Wellbore.Proofs.Segment.Cycle

/-!
# Which tables can be linked, and what linking makes of them

`linkAll` refuses a table for three reasons: an outlet that is not there, a segment
in use that drains into one that is not, and a chain that never ends. All three can
be read off the rows alone (`Linkable`), before any link is made, and they are the
only ones: `linkAll_cases` goes once through everything linking can do to a sound
table, and the rest of the file turns what the links look like into what the
numbers say.

A link is never refused half way. Linking looks the outlet of every segment up
before it makes the first link, and a slot found under the right number matches.
-/

namespace Wellbore

namespace SegmentTable

open Slot (EndsIn Ends)

variable {t u : SegmentTable} {a b : Slot} {s o : Segment}

/-- What linking answers says all but what the table is then. -/
theorem linkAll_eq {answer : Except LinkFailure Nat} (h : t.linkAll.1 = answer) :
    t.linkAll = (answer, t.linkAll.2) :=
  Prod.ext h rfl

/-! ## Looking the outlets up -/

/-- The outlet of a segment can be found, if it has one. -/
def Findable (t : SegmentTable) (s : Segment) : Prop :=
  s.outletId = wellheadOutlet ∨ s.outletId ≠ s.id ∧ ∃ o ∈ t.rows, o.id = s.outletId

/-- The slot that a segment names as its outlet. -/
def named? (t : SegmentTable) (s : Segment) : Option Slot :=
  if s.nearestWellhead then none else t.slotOf? s.outletId

theorem nearestWellhead_iff : s.nearestWellhead = true ↔ s.outletId = wellheadOutlet := by
  rw [Segment.nearestWellhead, beq_iff_eq]

theorem target_of_findable (h : t.Findable s) : t.target s = .ok (t.named? s) := by
  unfold target named?
  split
  · rfl
  · next hw =>
      rcases h with h | ⟨hself, ho⟩
      · exact absurd (nearestWellhead_iff.mpr h) hw
      · rw [if_neg (by simpa using hself)]
        obtain ⟨b, hb⟩ := Option.isSome_iff_exists.mp (slotOf?_isSome.mpr ho)
        rw [hb]

/-- What is wrong with an outlet that cannot be found. -/
def misnaming (s : Segment) : TopologyError :=
  if s.outletId = s.id then .selfOutlet s.id else .unknownOutlet s.id s.outletId

theorem target_of_not_findable (h : ¬ t.Findable s) : t.target s = .error (misnaming s) := by
  unfold target misnaming
  split
  · next hw => exact absurd (.inl (nearestWellhead_iff.mp hw)) h
  · split
    · next hself => rw [if_pos (beq_iff_eq.mp hself)]
    · next hself =>
        have hne : s.outletId ≠ s.id := by simpa using hself
        rw [if_neg hne]
        split
        · next b hb =>
            refine absurd (.inr ⟨hne, ?_⟩) h
            exact slotOf?_isSome.mp (Option.isSome_iff_exists.mpr ⟨b, hb⟩)
        · rfl

theorem targets_of_findable {entries : List (Slot × Segment)}
    (h : ∀ p ∈ entries, t.Findable p.2) : t.targets entries =
      .ok (entries.filterMap fun p => (t.named? p.2).map fun b => (p.1, b)) := by
  induction entries with
  | nil => rfl
  | cons p rest ih =>
      obtain ⟨hp, hrest⟩ := List.forall_mem_cons.mp h
      obtain ⟨slot, s⟩ := p
      rw [targets, target_of_findable hp, ih hrest, List.filterMap_cons]
      cases t.named? s <;> rfl

/-- The first outlet that cannot be found is the one that is complained of. -/
theorem targets_of_not_findable {entries : List (Slot × Segment)}
    (h : ∃ p ∈ entries, ¬ t.Findable p.2) :
    ∃ before p after, entries = before ++ p :: after ∧ (∀ q ∈ before, t.Findable q.2) ∧
      ¬ t.Findable p.2 ∧ t.targets entries = .error (misnaming p.2) := by
  induction entries with
  | nil => obtain ⟨p, hp, _⟩ := h; cases hp
  | cons p rest ih =>
      obtain ⟨slot, s⟩ := p
      rw [targets]
      by_cases hs : t.Findable s
      · obtain ⟨q, hq, hnot⟩ := h
        have hmem : q ∈ rest := by
          rcases List.mem_cons.mp hq with rfl | hmem
          · exact absurd hs hnot
          · exact hmem
        obtain ⟨before, p, after, rfl, hbefore, hp, he⟩ := ih ⟨q, hmem, hnot⟩
        refine ⟨(slot, s) :: before, p, after, rfl, List.forall_mem_cons.mpr ⟨hs, hbefore⟩, hp, ?_⟩
        rw [target_of_findable hs, he]
        cases t.named? s <;> rfl
      · refine ⟨[], (slot, s), rest, rfl, fun q hq => absurd hq List.not_mem_nil, hs, ?_⟩
        rw [target_of_not_findable hs]
        rfl

/-! ## Making the links -/

theorem Matches.link (h : t.Matches a b) :
    ∃ u, t.link a b = (true, u) ∧ u.written = t.written ∧ u.outletSlot? a = some b ∧
      ∀ x, a ≠ x → u.outletSlot? x = t.outletSlot? x := by
  have ha : a < t.size := by
    obtain ⟨s, _, ha, _⟩ := h
    exact get?_lt ha
  rcases link_cases t a b with ⟨hno, _⟩ | ⟨_, hlinked, heq⟩ | ⟨_, _, heq⟩
  · exact absurd h hno
  · exact ⟨t, heq, rfl, hlinked, fun _ _ => rfl⟩
  · refine ⟨_, heq, written_setOutlet, ?_, fun x hx => ?_⟩
    · rw [outletSlot?_setOutlet ha, if_pos rfl]
    · rw [outletSlot?_setOutlet ha, if_neg hx]

/-- Links that all match are all made, and nothing else changes. -/
theorem linkEach_of_matches (hs : t.Sound) {links : List (Slot × Slot)}
    (h : ∀ p ∈ links, t.Matches p.1 p.2) :
    ∃ u, t.linkEach links = (none, u) ∧ u.Sound ∧ u.written = t.written ∧
      (∀ p ∈ links, u.outletSlot? p.1 = some p.2) ∧
      ∀ x, (∀ p ∈ links, p.1 ≠ x) → u.outletSlot? x = t.outletSlot? x := by
  induction links generalizing t with
  | nil => exact ⟨t, rfl, hs, rfl, fun p hp => absurd hp List.not_mem_nil, fun _ _ => rfl⟩
  | cons p rest ih =>
      obtain ⟨a, b⟩ := p
      obtain ⟨hab, hrest⟩ := List.forall_mem_cons.mp h
      obtain ⟨t', hlink, hw, hout, hother⟩ := hab.link
      have hs' : t'.Sound := by
        have := hs.link a b
        rwa [hlink] at this
      obtain ⟨u, heach, hu, hw', hmade, hkept⟩ := ih hs' fun p hp => (hrest p hp).written hw
      refine ⟨u, ?_, hu, hw'.trans hw, ?_, ?_⟩
      · rw [linkEach, linkMatching?, hlink]
        exact heach
      · refine List.forall_mem_cons.mpr ⟨?_, hmade⟩
        -- a later link from the same slot leads to the same outlet
        by_cases hagain : ∃ p ∈ rest, p.1 = a
        · obtain ⟨⟨a', b'⟩, hp, rfl⟩ := hagain
          rw [hmade _ hp, (hrest _ hp).unique hab]
        · rw [hkept a fun p hp heq => hagain ⟨p, hp, heq⟩, hout]
      · intro x hx
        obtain ⟨hax, hrestx⟩ := List.forall_mem_cons.mp hx
        rw [hkept x hrestx, hother x hax]

/-- `u` is `t` with every outlet that is named linked to. -/
structure Resolved (t u : SegmentTable) : Prop where
  sound : u.Sound
  written : u.written = t.written
  outlet : ∀ {a s}, t.get? a = some s →
    u.outletSlot? a = if s.nearestWellhead then t.outletSlot? a else t.slotOf? s.outletId

theorem matches_named (ha : t.get? a = some s) (hf : t.Findable s)
    (hb : t.named? s = some b) : t.Matches a b := by
  rw [named?] at hb
  split at hb
  · cases hb
  · next hw =>
      obtain ⟨o, ho, hid⟩ := slotOf?_eq_some.mp hb
      rcases hf with h | ⟨hself, _⟩
      · exact absurd (nearestWellhead_iff.mpr h) hw
      · exact ⟨s, o, ha, ho, hid, fun h => hself (hid.symm.trans h)⟩

theorem linkEach_named (hs : t.Sound) (hf : ∀ s ∈ t.rows, t.Findable s) :
    ∃ u, t.linkEach (t.entries.filterMap fun p => (t.named? p.2).map fun b => (p.1, b)) =
      (none, u) ∧ Resolved t u := by
  have hmem : ∀ p, p ∈ (t.entries.filterMap fun p => (t.named? p.2).map fun b => (p.1, b)) ↔
      ∃ s, t.get? p.1 = some s ∧ t.named? s = some p.2 := by
    rintro ⟨a, b⟩
    simp only [List.mem_filterMap, Option.map_eq_some_iff, Prod.mk.injEq, Prod.exists]
    constructor
    · rintro ⟨x, s, hx, c, hc, rfl, rfl⟩
      exact ⟨s, mem_entries.mp hx, hc⟩
    · rintro ⟨s, ha, hb⟩
      exact ⟨a, s, mem_entries.mpr ha, b, hb, rfl, rfl⟩
  obtain ⟨u, heach, hu, hw, hmade, hkept⟩ := linkEach_of_matches hs fun p hp => by
    obtain ⟨s, hp1, hp2⟩ := (hmem p).mp hp
    exact matches_named hp1 (hf s (mem_rows.mpr ⟨_, hp1⟩)) hp2
  refine ⟨u, heach, hu, hw, fun {a s} ha => ?_⟩
  have hnamed : t.named? s = if s.nearestWellhead then none else t.slotOf? s.outletId := rfl
  cases hb : t.named? s with
  | some b =>
      rw [hmade (a, b) ((hmem _).mpr ⟨s, ha, hb⟩)]
      split at hnamed
      · rw [hnamed] at hb; cases hb
      · next h => rw [if_neg h, ← hb, hnamed]
  | none =>
      rw [hkept a fun p hp heq => ?_]
      · split
        · rfl
        · next h =>
            rw [if_neg h, hb] at hnamed
            rcases hf s (mem_rows.mpr ⟨a, ha⟩) with hw | ⟨_, ho⟩
            · exact absurd (nearestWellhead_iff.mpr hw) h
            · have hsome := slotOf?_isSome.mpr ho
              rw [← hnamed] at hsome
              cases hsome
      · obtain ⟨s', hp1, hp2⟩ := (hmem p).mp hp
        subst heq
        rw [ha] at hp1
        cases hp1
        rw [hb] at hp2
        cases hp2

theorem entries_map_snd : t.entries.map Prod.snd = t.rows.toList := by
  rw [entries, List.map_map]
  exact List.zipIdx_map_fst 0 t.rows.toList

theorem length_named_entries (hf : ∀ s ∈ t.rows, t.Findable s) :
    (t.entries.filterMap fun p => (t.named? p.2).map fun b => (p.1, b)).length =
      t.rows.countP fun s => s.outletId != wellheadOutlet := by
  rw [List.length_filterMap_eq_countP, ← Array.countP_toList, ← entries_map_snd,
    List.countP_map]
  refine List.countP_congr fun p hp => ?_
  have hp2 : p.2 ∈ t.rows := mem_rows.mpr ⟨p.1, mem_entries.mp hp⟩
  rw [Option.isSome_map, Function.comp_apply, named?, bne_iff_ne]
  by_cases hw : p.2.outletId = wellheadOutlet
  · rw [if_pos (nearestWellhead_iff.mpr hw)]
    exact ⟨fun h => Bool.noConfusion h, fun h => absurd hw h⟩
  · rw [if_neg fun h => hw (nearestWellhead_iff.mp h), slotOf?_isSome]
    exact ⟨fun _ => hw, fun _ => ((hf p.2 hp2).resolve_left hw).2⟩

/-- All that linking a sound table can do. Either some outlet cannot be found and the
table stays as it is, or every outlet is linked and the links are judged. -/
theorem linkAll_cases (hs : t.Sound) :
    (¬ (∀ s ∈ t.rows, t.Findable s) ∧ ∃ e, t.linkAll = (.error (.topology e), t)) ∨
    ((∀ s ∈ t.rows, t.Findable s) ∧ ∃ u, Resolved t u ∧
      ((∃ e, u.linkFault? = some e ∧ t.linkAll = (.error (.topology e), u)) ∨
        (u.linkFault? = none ∧
          t.linkAll = (.ok (t.rows.countP fun s => s.outletId != wellheadOutlet), u)))) := by
  by_cases hf : ∀ s ∈ t.rows, t.Findable s
  · refine .inr ⟨hf, ?_⟩
    have hentries : ∀ p ∈ t.entries, t.Findable p.2 := fun p hp =>
      hf p.2 (mem_rows.mpr ⟨p.1, mem_entries.mp hp⟩)
    have htargets := targets_of_findable hentries
    obtain ⟨u, heach, hu⟩ := linkEach_named hs hf
    refine ⟨u, hu, ?_⟩
    rw [linkAll, htargets]
    simp only [heach]
    cases hfault : u.linkFault? with
    | some e => exact .inl ⟨e, rfl, rfl⟩
    | none => exact .inr ⟨rfl, by rw [length_named_entries hf]⟩
  · refine .inl ⟨hf, ?_⟩
    simp only [not_forall] at hf
    obtain ⟨s, hmem, hnot⟩ := hf
    obtain ⟨a, ha⟩ := mem_rows.mp hmem
    obtain ⟨-, p, -, -, -, -, he⟩ := targets_of_not_findable ⟨(a, s), mem_entries.mpr ha, hnot⟩
    rw [linkAll, he]
    exact ⟨misnaming p.2, rfl⟩

/-! ## Judging the links -/

theorem inactiveOutlet?_eq_none : t.inactiveOutlet? = none ↔
    ∀ a b s o, t.get? a = some s → s.outlet = some b → t.get? b = some o → s.active = true →
      o.active = true := by
  rw [inactiveOutlet?, List.findSome?_eq_none_iff]
  constructor
  · intro h a b s o ha hb ho hs
    have := h s (Array.mem_toList_iff.mpr (mem_rows.mpr ⟨a, ha⟩))
    rw [if_pos hs, hb, Option.bind_some, ho] at this
    by_contra hno
    simp only [if_neg hno] at this
    cases this
  · intro h s hmem
    obtain ⟨a, ha⟩ := mem_rows.mp (Array.mem_toList_iff.mp hmem)
    split
    · next hs =>
        split
        · next o ho =>
            obtain ⟨b, hb, hbo⟩ := Option.bind_eq_some_iff.mp ho
            rw [if_pos (h a b s o ha hb hbo hs)]
        · rfl
    · rfl

theorem linkFault?_eq_none (hs : t.Sound) : t.linkFault? = none ↔
    (∀ a b s o, t.get? a = some s → s.outlet = some b → t.get? b = some o →
      s.active = true → o.active = true) ∧
    ∀ a, a < t.size → Ends t.outletSlot? a := by
  rw [linkFault?, Option.or_eq_none_iff, inactiveOutlet?_eq_none, outletCycle?_eq_none hs]

end SegmentTable

end Wellbore
