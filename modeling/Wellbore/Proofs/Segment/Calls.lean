import Mathlib.Data.List.Induction
import Mathlib.Data.List.Nodup
import Mathlib.Logic.Relation
import Wellbore.Proofs.Segment.Table
import Wellbore.Segment.Linking

/-!
# A segment table through any run of calls

Whatever is called on a table, and however it ends, comes down to two changes: a segment
under a free number is put behind the others, or two segments that match and are not
linked yet are linked. `Changes` says so once. Linking a whole table is many such
changes in a row, and one that fails half way has made some of them.

Each change takes nothing back (`Extends`): rows stay as they were written, a link that leads
to the outlet stays where it leads, and a count only goes up. A link is never moved because
the slot that matches is the only one that ever can.

A segment may come in with a link and a count of its own, for instance as a copy from another
table. These are never checked, so all that can be said is what was added to them since.
Segments as they are read from rows bring nothing along. For them the invariant is `Sound`,
and then no link at all is ever changed (`GrowsTo`).
-/

namespace Wellbore

/-- A call on a segment table; `σ` is what a segment comes in as. -/
inductive TableCall (σ : Type := SegmentRow) where
  | insert (segment : σ)
  | link (segment candidate : Slot)
  /-- Links two segments that are said to match. -/
  | linkMatching (segment candidate : Slot)
  | linkAll
deriving DecidableEq

/-- What can be inserted into a segment table. -/
class ToSegment (σ : Type) where
  segment : σ → Segment

@[default_instance]
instance : ToSegment SegmentRow := ⟨SegmentRow.segment⟩

instance : ToSegment Segment := ⟨id⟩

namespace SegmentTable

open Relation (ReflTransGen)

variable {σ : Type} [ToSegment σ] {t u v : SegmentTable} {a b : Slot} {s : Segment}
  {P : Segment → Prop} {given : List Segment}

/-- The table after a call. A mistake of the caller, in `linkMatching` or with a table that
is full, leaves it as it was. -/
def after (t : SegmentTable) : TableCall σ → SegmentTable
  | .insert s => ((t.insert? (ToSegment.segment s)).map Prod.snd).getD t
  | .link a b => (t.link a b).2
  | .linkMatching a b => (t.linkMatching? a b).getD t
  | .linkAll => t.linkAll.2

/-- The table that some calls make of the empty one. -/
def ofCalls (calls : List (TableCall σ)) : SegmentTable := calls.foldl after {}

theorem ofCalls_append (calls : List (TableCall σ)) (c : TableCall σ) :
    ofCalls (calls ++ [c]) = (ofCalls calls).after c := by
  rw [ofCalls, List.foldl_append]
  rfl

/-! ## What a call can change -/

/-- The changes that calls are made of, where `P` holds of the segments that come in. -/
inductive Changes (P : Segment → Prop) : SegmentTable → SegmentTable → Prop where
  | push {t : SegmentTable} {s : Segment} (came : P s) (free : t.slotOf? s.id = none)
      (room : t.size < Slot.limit) : Changes P t (t.push s free)
  | link {t : SegmentTable} {a b : Slot} (fits : t.Matches a b)
      (fresh : t.outletSlot? a ≠ some b) : Changes P t (t.setOutlet a b)

/-- All that inserting can do. -/
theorem insert?_cases (t : SegmentTable) (s : Segment) :
    ((t.slotOf? s.id).isSome ∧ t.insert? s = some (.error (.duplicateSegmentId s.id), t)) ∨
    ∃ free : t.slotOf? s.id = none,
      (t.size < Slot.limit ∧ t.insert? s = some (.ok t.size, t.push s free)) ∨
      (Slot.limit ≤ t.size ∧ t.insert? s = none) := by
  by_cases free : t.slotOf? s.id = none
  · refine .inr ⟨free, ?_⟩
    rw [insert?, insert_of_free free]
    dsimp only
    rw [Slot.ofNat?]
    split
    next room => exact .inl ⟨room, rfl⟩
    next full => exact .inr ⟨Nat.le_of_not_lt full, rfl⟩
  · obtain ⟨a, ha⟩ := Option.ne_none_iff_exists'.mp free
    refine .inl ⟨Option.isSome_iff_exists.mpr ⟨a, ha⟩, ?_⟩
    rw [insert?, insert_of_taken ha]

/-- Called on a table, it puts the segment behind the others or does nothing. -/
theorem after_insert (t : SegmentTable) (x : σ) : t.after (.insert x) = t ∨
    ∃ free : t.slotOf? (ToSegment.segment x).id = none,
      t.size < Slot.limit ∧ t.after (.insert x) = t.push (ToSegment.segment x) free := by
  rw [after]
  rcases insert?_cases t (ToSegment.segment x) with ⟨-, h⟩ | ⟨free, ⟨room, h⟩ | ⟨-, h⟩⟩ <;> rw [h]
  · exact .inl rfl
  · exact .inr ⟨free, room, rfl⟩
  · exact .inl rfl

theorem changes_link (t : SegmentTable) (a b : Slot) :
    ReflTransGen (Changes P) t (t.link a b).2 := by
  rcases link_cases t a b with ⟨-, h⟩ | ⟨-, -, h⟩ | ⟨hm, hne, h⟩ <;> rw [h]
  exact .single (.link hm hne)

/-- Linking what is said to match does what linking does. -/
theorem linkMatching?_getD (t : SegmentTable) (a b : Slot) :
    (t.linkMatching? a b).getD t = (t.link a b).2 := by
  unfold linkMatching?
  rcases link_cases t a b with ⟨-, h⟩ | ⟨-, -, h⟩ | ⟨-, -, h⟩ <;> rw [h] <;> rfl

theorem changes_linkEach (t : SegmentTable) (links : List (Slot × Slot)) :
    ReflTransGen (Changes P) t (t.linkEach links).2 := by
  induction links generalizing t with
  | nil => exact .refl
  | cons p rest ih =>
      obtain ⟨a, b⟩ := p
      rw [linkEach]
      cases h : t.linkMatching? a b with
      | none => exact .refl
      | some u =>
          have hu : (t.link a b).2 = u := by rw [← linkMatching?_getD, h, Option.getD_some]
          have hfirst := changes_link (P := P) t a b
          rw [hu] at hfirst
          exact hfirst.trans (ih u)

/-- Links that were made stay, also when the forest that they form is refused. -/
theorem changes_linkAll (t : SegmentTable) : ReflTransGen (Changes P) t t.linkAll.2 := by
  unfold linkAll
  split
  · exact .refl
  · next links _ =>
      have heach := changes_linkEach (P := P) t links
      split
      · next h => rw [h] at heach; exact heach
      · next h =>
          rw [h] at heach
          split <;> exact heach

theorem changes_after (t : SegmentTable) (c : TableCall σ)
    (came : ∀ x, c = .insert x → P (ToSegment.segment x)) :
    ReflTransGen (Changes P) t (t.after c) := by
  cases c with
  | insert x =>
      rcases after_insert t x with h | ⟨free, room, h⟩ <;> rw [h]
      exact .single (.push (came x rfl) free room)
  | link a b => exact changes_link t a b
  | linkMatching a b =>
      have h := changes_link (P := P) t a b
      rw [← linkMatching?_getD] at h
      exact h
  | linkAll => exact changes_linkAll t

theorem changes_ofCalls (calls : List (TableCall σ))
    (came : ∀ x, .insert x ∈ calls → P (ToSegment.segment x)) :
    ReflTransGen (Changes P) {} (ofCalls calls) := by
  induction calls using List.reverseRecOn with
  | nil => exact .refl
  | append_singleton calls c ih =>
      rw [ofCalls_append]
      refine (ih fun x hx => came x (List.mem_append_left _ hx)).trans ?_
      exact changes_after _ c fun x hx =>
        came x (List.mem_append_right _ (List.mem_singleton.mpr hx.symm))

/-! ## What a change keeps -/

/-- Whatever `t` holds, `u` holds at the same slot: the same row, a link if there was one, the
same one if it leads to the outlet, and at least as many links that lead here. -/
def Extends (t u : SegmentTable) : Prop :=
  ∀ a s, t.get? a = some s → ∃ s', u.get? a = some s' ∧ s'.toSegmentRow = s.toSegmentRow ∧
    (s.outlet ≠ none → s'.outlet ≠ none) ∧
    (∀ b, s.outlet = some b → t.Matches a b → s'.outlet = some b) ∧ s.linkCount ≤ s'.linkCount

theorem Extends.refl (t : SegmentTable) : t.Extends t :=
  fun _ s h => ⟨s, h, rfl, id, fun _ hb _ => hb, Nat.le_refl _⟩

theorem Extends.matches (h : t.Extends u) (hm : t.Matches a b) : u.Matches a b := by
  obtain ⟨s, o, ha, hb, hid, hne⟩ := hm
  obtain ⟨s', hs', hrow, -⟩ := h a s ha
  obtain ⟨o', ho', hrow', -⟩ := h b o hb
  exact ⟨s', o', hs', ho', by rw [hrow, hrow']; exact hid, by rw [hrow, hrow']; exact hne⟩

theorem Extends.trans (h : t.Extends u) (h' : u.Extends v) : t.Extends v := by
  intro a s ha
  obtain ⟨s', hs', hrow, hsome, hout, hcount⟩ := h a s ha
  obtain ⟨s'', hs'', hrow', hsome', hout', hcount'⟩ := h' a s' hs'
  exact ⟨s'', hs'', hrow'.trans hrow, fun hne => hsome' (hsome hne),
    fun b hb hm => hout' b (hout b hb hm) (h.matches hm), Nat.le_trans hcount hcount'⟩

theorem Changes.extends (h : Changes P t u) : t.Extends u := by
  cases h with
  | push came free room =>
      intro a s ha
      refine ⟨s, ?_, rfl, id, fun _ hb _ => hb, Nat.le_refl _⟩
      rw [get?_push, if_neg (Nat.ne_of_lt (get?_lt ha)), ha]
  | @link a b fits fresh =>
      intro x s hx
      have hget := get?_setOutlet (t := t) (a := a) (b := b) (x := x)
      rw [hx, Option.map_some] at hget
      refine ⟨_, hget, rfl, fun hne => ?_, fun c hc hm => ?_, ?_⟩
      · dsimp only
        split
        · nofun
        · exact hne
      · -- a segment that gets a link has no other one that leads to its outlet
        have hne : a ≠ x := by
          rintro rfl
          rw [outletSlot?, hx, Option.bind_some, hc, hm.unique fits] at fresh
          exact fresh rfl
        exact (if_neg hne).trans hc
      · dsimp only
        split
        · exact Nat.le_succ _
        · exact Nat.le_refl _

theorem extends_of_changes (h : ReflTransGen (Changes P) t u) : t.Extends u := by
  induction h with
  | refl => exact .refl t
  | tail _ hstep ih => exact ih.trans hstep.extends

/-! ## Segments that bring something along -/

/-- The links that some segments have. -/
def linksOf (given : List Segment) (a : Slot) : Option Slot := given[a]?.bind Segment.outlet

/-- The counts that some segments have. -/
def countsOf (given : List Segment) (a : Slot) : Nat := (given[a]?.map Segment.linkCount).getD 0

/-- The table of the segments `given`, as each of them came in. Every slot has a handle, the
index leads to the slot that has a number, and nowhere else; a link that was not brought along
leads to the outlet, and a count has grown by the links that were not brought along. -/
structure AccountsFor (t : SegmentTable) (given : List Segment) : Prop where
  rows : t.written = given.map Segment.toSegmentRow
  found : ∀ id a, t.index.get? id = some a ↔ ∃ s, t.get? a = some s ∧ s.id = id
  handles : t.size ≤ Slot.limit
  outlet : ∀ a b, t.outletSlot? a = some b → linksOf given a ≠ some b → t.Matches a b
  counted : ∀ a s, t.get? a = some s →
    s.linkCount = countsOf given a + t.linkedSince (linksOf given) a

theorem keeps_of_changes (h : ReflTransGen (Changes P) {} t) :
    ∃ given, (∀ s ∈ given, P s) ∧ t.written = given.map Segment.toSegmentRow ∧
      t.size ≤ Slot.limit ∧ t.Keeps (linksOf given) (countsOf given) := by
  induction h with
  | refl =>
      refine ⟨[], nofun, rfl, Nat.zero_le _, ?_⟩
      constructor
      · exact fun h => by cases h
      · exact fun h => absurd h (Nat.not_lt_zero _)
      · exact fun h => by cases h
  | @tail u _ _ hstep ih =>
      obtain ⟨given, hcame, hw, hsize, hk⟩ := ih
      have hlength : given.length = u.size := by
        rw [← length_written, hw, List.length_map]
      cases hstep with
      | @push s came free room =>
          refine ⟨given ++ [s], ?_, ?_, ?_, hk.push free ?_ ?_ ?_ ?_⟩
          · simpa [or_imp, forall_and] using ⟨hcame, came⟩
          · rw [List.map_append, ← hw]
            exact congrArg (List.map Segment.toSegmentRow) Array.toList_push |>.trans
              List.map_append
          · rw [size_push]
            exact room
          · intro a ha
            rw [linksOf, List.getElem?_append_left (hlength ▸ ha), linksOf]
          · rw [linksOf, ← hlength, List.getElem?_concat_length, Option.bind_some]
          · intro a ha
            rw [countsOf, List.getElem?_append_left (hlength ▸ ha), countsOf]
          · rw [countsOf, ← hlength, List.getElem?_concat_length]
            rfl
      | link fits fresh =>
          exact ⟨given, hcame, written_setOutlet.trans hw, size_setOutlet.trans_le hsize,
            hk.setOutlet fits fresh⟩

/-! ## Segments that are read from rows -/

/-- Whatever `t` holds, `u` holds at the same slot: the same row, the same link if there
was one, and at least as many links that lead here. -/
def GrowsTo (t u : SegmentTable) : Prop :=
  ∀ a s, t.get? a = some s → ∃ s', u.get? a = some s' ∧ s'.toSegmentRow = s.toSegmentRow ∧
    (∀ b, s.outlet = some b → s'.outlet = some b) ∧ s.linkCount ≤ s'.linkCount

/-- In a sound table every link leads to the outlet. -/
theorem Sound.growsTo (hs : t.Sound) (h : t.Extends u) : t.GrowsTo u := by
  intro a s ha
  obtain ⟨s', hs', hrow, -, hout, hcount⟩ := h a s ha
  exact ⟨s', hs', hrow, fun b hb => hout b hb (hs.matched (outletSlot?_eq_some.mpr ⟨s, ha, hb⟩)),
    hcount⟩

theorem Changes.sound (h : Changes Segment.IsNew t u) (hs : t.Sound) : u.Sound := by
  cases h with
  | push came free room => exact hs.push came free
  | link fits fresh => exact hs.setOutlet fits fresh

theorem Sound.changes (hs : t.Sound) (h : ReflTransGen (Changes Segment.IsNew) t u) :
    u.Sound ∧ t.GrowsTo u := by
  refine ⟨?_, hs.growsTo (extends_of_changes h)⟩
  induction h with
  | refl => exact hs
  | tail _ hstep ih => exact hstep.sound ih

/-- A row that comes in brings nothing along. -/
theorem changes_after_row (t : SegmentTable) (c : TableCall) :
    ReflTransGen (Changes Segment.IsNew) t (t.after c) :=
  changes_after t c fun r _ => r.isNew_segment

theorem sound_ofCalls (calls : List TableCall) : (ofCalls calls).Sound :=
  (Sound.empty.changes (changes_ofCalls calls fun r _ => r.isNew_segment)).1

/-! ## Any run of calls -/

/-- What can be relied on at any moment: a number stands for the one slot that has it, a
link leads to the segment that is named as the outlet, and every link is counted once. -/
structure Coherent (t : SegmentTable) : Prop where
  found : ∀ id a, t.index.get? id = some a ↔ ∃ s, t.get? a = some s ∧ s.id = id
  distinct : (t.rows.toList.map fun s => s.id).Nodup
  outlet : ∀ a s b, t.get? a = some s → s.outlet = some b →
    b < t.size ∧ b ≠ a ∧ ∃ o, t.get? b = some o ∧ o.id = s.outletId
  counted : ∀ a s, t.get? a = some s → s.linkCount = t.rows.countP fun r => r.outlet == some a

theorem nodup_ids (t : SegmentTable) : (t.rows.toList.map fun s => s.id).Nodup := by
  rw [List.nodup_iff_getElem?_ne_getElem?]
  intro a b hab hb heq
  rw [List.length_map] at hb
  rw [List.getElem?_map, List.getElem?_map, List.getElem?_eq_getElem hb,
    List.getElem?_eq_getElem (Nat.lt_trans hab hb), Option.map_some, Option.map_some,
    Option.some.injEq] at heq
  have hget : ∀ {x} (hx : x < t.rows.toList.length), t.get? x = some t.rows.toList[x] := by
    intro x hx
    rw [get?, ← Array.getElem?_toList, List.getElem?_eq_getElem hx]
  exact Nat.ne_of_lt hab (unique (hget (Nat.lt_trans hab hb)) (hget hb) heq)

theorem Sound.coherent (hs : t.Sound) : t.Coherent where
  found _ _ := slotOf?_eq_some
  distinct := t.nodup_ids
  outlet a s b ha hb := by
    have hm : t.Matches a b := hs.matched (outletSlot?_eq_some.mpr ⟨s, ha, hb⟩)
    obtain ⟨s', o, ha', ho, hid, -⟩ := id hm
    rw [ha] at ha'
    cases ha'
    exact ⟨hm.lt, hm.ne.symm, o, ho, hid⟩
  counted _ _ ha := hs.counted ha

/-- Linking that ends at a cycle leaves its links behind, and they are built on later. -/
def builtOn : List (TableCall Segment) :=
  [.insert (SegmentRow.segment ⟨2, 3, 1, {}⟩), .insert (SegmentRow.segment ⟨3, 2, 1, {}⟩),
    .linkAll, .insert (SegmentRow.segment ⟨3, 0, 1, {}⟩),
    .insert (SegmentRow.segment ⟨4, 2, 1, {}⟩), .link 2 0, .link 2 1]

/-- A copy from another table, where one link leads to it. -/
def copied : Segment := { SegmentRow.segment ⟨1, 0, 1, {}⟩ with linkCount := 1 }

end SegmentTable

end Wellbore
