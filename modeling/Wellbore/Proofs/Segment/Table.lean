import Mathlib.Data.List.Basic
import Mathlib.Order.Interval.Finset.Nat
import Mathlib.Data.Nat.Count
import Wellbore.Proofs.SortedMap
import Wellbore.Segment.Table

/-!
# What every operation on a segment table keeps

A table is reached from the empty one by inserting segments and linking slots. A segment
that comes in may have a link and a count of its own, as one has that was copied out of
another table; `Keeps` says what becomes of these and what is added to them. For segments as
they are read from rows this is `Sound`: a link leads to the slot whose number the segment
names, and every count is the number of links that lead here.

The rows the segments were read from (`written`) are never touched by a link, so everything
that only looks at numbers can be asked of the table before or after.
-/

namespace Wellbore

/-- Whether a segment is as it is read from a row. -/
def Segment.IsNew (s : Segment) : Prop := s.outlet = none ∧ s.linkCount = 0

theorem SegmentRow.isNew_segment (r : SegmentRow) : r.segment.IsNew := ⟨rfl, rfl⟩

namespace SegmentTable

variable {t : SegmentTable} {a b : Slot} {s o : Segment} {id : Int32} {rows : List SegmentRow}

/-- The rows that the segments were read from. -/
def written (t : SegmentTable) : List SegmentRow :=
  t.rows.toList.map Segment.toSegmentRow

/-- How many segments are linked to a slot. -/
def feeders (t : SegmentTable) (a : Slot) : Nat :=
  t.rows.countP fun s => s.outlet == some a

/-! ## Looking up slots -/

/-- A table is its rows: they leave no choice for the index. -/
theorem ext_get? {t u : SegmentTable} (h : ∀ a, t.get? a = u.get? a) : t = u := by
  have hrows : t.rows = u.rows := Array.ext_getElem? h
  have hindex : t.index = u.index := SortedMap.ext_get? fun id => Option.ext fun slot => by
    rw [t.indexed, u.indexed, hrows]
  cases t
  cases u
  cases hrows
  cases hindex
  rfl

theorem get?_lt (h : t.get? a = some s) : a < t.size :=
  (Array.getElem?_eq_some_iff.mp h).1

theorem get?_of_lt (h : a < t.size) : ∃ s, t.get? a = some s :=
  ⟨t.rows[a], Array.getElem?_eq_getElem h⟩

theorem get?_eq_none (h : t.size ≤ a) : t.get? a = none :=
  Array.getElem?_eq_none h

theorem mem_rows : s ∈ t.rows ↔ ∃ a, t.get? a = some s :=
  Array.mem_iff_getElem?

theorem mem_entries : (a, s) ∈ t.entries ↔ t.get? a = some s := by
  simp only [entries, List.mem_map, Prod.mk.injEq, Prod.exists, List.mem_zipIdx_iff_getElem?,
    Array.getElem?_toList, get?]
  constructor
  · rintro ⟨s', a', h, rfl, rfl⟩; exact h
  · intro h; exact ⟨s, a, h, rfl, rfl⟩

/-- Entries stand in the order of their slots. -/
theorem pairwise_entries (t : SegmentTable) : t.entries.Pairwise fun p q => p.1 < q.1 := by
  have hslots : t.entries.map Prod.fst = List.range t.rows.toList.length := by
    rw [entries, List.map_map, List.range_eq_range', ← List.zipIdx_map_snd 0 t.rows.toList]
    rfl
  have hsorted : (t.entries.map Prod.fst).Pairwise fun a b => a < b := by
    rw [hslots]
    exact List.pairwise_lt_range
  exact List.pairwise_map.mp hsorted

theorem outletSlot?_eq_some : t.outletSlot? a = some b ↔
    ∃ s, t.get? a = some s ∧ s.outlet = some b := Option.bind_eq_some_iff

theorem getElem?_written : t.written[a]? = (t.get? a).map Segment.toSegmentRow := by
  rw [written, List.getElem?_map, Array.getElem?_toList, get?]

theorem length_written : t.written.length = t.size := by
  rw [written, List.length_map, Array.length_toList, size]

theorem size_eq_of_written {u : SegmentTable} (hw : u.written = t.written) :
    u.size = t.size := by
  rw [← length_written, hw, length_written]

/-- Where two tables were read from the same rows, a slot holds the same row. -/
theorem get?_of_written {u : SegmentTable} (hw : u.written = t.written)
    (h : t.get? a = some s) :
    ∃ s', u.get? a = some s' ∧ s'.toSegmentRow = s.toSegmentRow := by
  have hrow := congrArg (fun rows => rows[a]?) hw
  simp only [getElem?_written, h, Option.map_some] at hrow
  exact Option.map_eq_some_iff.mp hrow

/-- A table is its rows, its links and its counts. -/
theorem ext_written {t u : SegmentTable} (hw : t.written = u.written)
    (ho : ∀ a, t.outletSlot? a = u.outletSlot? a)
    (hc : ∀ a, (t.get? a).map Segment.linkCount = (u.get? a).map Segment.linkCount) :
    t = u := by
  refine ext_get? fun a => ?_
  have hrow := congrArg (fun rows => rows[a]?) hw
  have hout := ho a
  have hcount := hc a
  simp only [getElem?_written] at hrow
  simp only [outletSlot?] at hout
  cases ht : t.get? a with
  | none =>
      cases hu : u.get? a with
      | none => rfl
      | some s => rw [ht, hu] at hrow; cases hrow
  | some s =>
      cases hu : u.get? a with
      | none => rw [ht, hu] at hrow; cases hrow
      | some s' =>
          simp only [ht, hu, Option.map_some, Option.bind_some, Option.some.injEq]
            at hrow hout hcount
          obtain ⟨row, outlet, count⟩ := s
          obtain ⟨row', outlet', count'⟩ := s'
          simp only at hrow hout hcount
          rw [hrow, hout, hcount]

/-! ## Looking up numbers -/

theorem slotOf?_eq_some : t.slotOf? id = some a ↔ ∃ s, t.get? a = some s ∧ s.id = id :=
  (t.indexed id a).trans Option.map_eq_some_iff

theorem slotOf?_isSome : (t.slotOf? id).isSome ↔ ∃ s ∈ t.rows, s.id = id := by
  simp only [Option.isSome_iff_exists, slotOf?_eq_some, mem_rows]
  exact ⟨fun ⟨a, s, ha, hid⟩ => ⟨s, ⟨a, ha⟩, hid⟩, fun ⟨s, ⟨a, ha⟩, hid⟩ => ⟨a, s, ha, hid⟩⟩

theorem slotOf?_congr {u : SegmentTable} (h : t.written = u.written) :
    t.slotOf? id = u.slotOf? id := by
  have hrow : ∀ a, (t.get? a).map Segment.toSegmentRow = (u.get? a).map Segment.toSegmentRow :=
    fun a => by rw [← getElem?_written, ← getElem?_written, h]
  refine Option.ext fun a => (t.indexed id a).trans (Iff.trans ?_ (u.indexed id a).symm)
  have hid := congrArg (Option.map SegmentRow.id) (hrow a)
  rw [Option.map_map, Option.map_map] at hid
  exact Eq.congr_left hid

/-- A number stands at one slot only. -/
theorem unique (ha : t.get? a = some s) (hb : t.get? b = some o) (hid : s.id = o.id) :
    a = b := by
  have ha' := slotOf?_eq_some.mpr ⟨s, ha, rfl⟩
  rw [hid, slotOf?_eq_some.mpr ⟨o, hb, rfl⟩] at ha'
  exact (Option.some.inj ha').symm

/-- The slot `b` holds the outlet of the segment at `a`. -/
def Matches (t : SegmentTable) (a b : Slot) : Prop :=
  ∃ s o, t.get? a = some s ∧ t.get? b = some o ∧ o.id = s.outletId ∧ o.id ≠ s.id

theorem Matches.ne (h : t.Matches a b) : a ≠ b := by
  rintro rfl
  obtain ⟨s, o, hs, ho, _, hne⟩ := h
  rw [hs] at ho
  cases ho
  exact hne rfl

theorem Matches.lt (h : t.Matches a b) : b < t.size := by
  obtain ⟨_, _, _, ho, _⟩ := h
  exact get?_lt ho

/-- A segment has at most one outlet. -/
theorem Matches.unique {b' : Slot} (h : t.Matches a b) (h' : t.Matches a b') : b = b' := by
  obtain ⟨s, o, ha, hb, hid, _⟩ := h
  obtain ⟨s', o', ha', hb', hid', _⟩ := h'
  rw [ha] at ha'
  cases ha'
  exact SegmentTable.unique hb hb' (hid.trans hid'.symm)

theorem Matches.written {u : SegmentTable} (h : t.Matches a b)
    (hw : u.written = t.written) : u.Matches a b := by
  obtain ⟨s, o, ha, hb, hid, hne⟩ := h
  obtain ⟨s', ha', hs'⟩ := get?_of_written hw ha
  obtain ⟨o', hb', ho'⟩ := get?_of_written hw hb
  exact ⟨s', o', ha', hb', by rw [hs', ho']; exact hid, by rw [hs', ho']; exact hne⟩

/-! ## The invariant -/

/-- How many slots are linked to `a` that did not come in with this link. -/
def linkedSince (t : SegmentTable) (brought : Slot → Option Slot) (a : Slot) : Nat :=
  (List.range t.size).countP fun x => t.outletSlot? x = some a ∧ brought x ≠ some a

/-- What holds of every table that was built by inserting segments with links (`brought`) and
counts (`credit`) of their own, and by linking them. -/
structure Keeps (t : SegmentTable) (brought : Slot → Option Slot) (credit : Slot → Nat) :
    Prop where
  matched : ∀ {a b}, t.outletSlot? a = some b → brought a = some b ∨ t.Matches a b
  kept : ∀ {a b}, a < t.size → brought a = some b → t.outletSlot? a ≠ none
  counted : ∀ {a s}, t.get? a = some s → s.linkCount = credit a + t.linkedSince brought a

/-- What holds of every table that was built by inserting rows and linking. -/
structure Sound (t : SegmentTable) : Prop where
  matched : ∀ {a b}, t.outletSlot? a = some b → t.Matches a b
  counted : ∀ {a s}, t.get? a = some s → s.linkCount = t.feeders a

theorem outlets_eq (t : SegmentTable) :
    t.rows.toList.map Segment.outlet = (List.range t.size).map t.outletSlot? := by
  refine List.ext_getElem (by simp [size]) fun x hx _ => ?_
  rw [List.length_map, Array.length_toList] at hx
  rw [List.getElem_map, List.getElem_map, List.getElem_range, outletSlot?, get?,
    Array.getElem?_eq_getElem hx, Option.bind_some, Array.getElem_toList]

theorem feeders_eq_linkedSince : t.feeders a = t.linkedSince (fun _ => none) a := by
  have hfeeders : t.feeders a = (t.rows.toList.map Segment.outlet).countP (· == some a) := by
    rw [feeders, ← Array.countP_toList, List.countP_map]
    rfl
  rw [hfeeders, outlets_eq, List.countP_map, linkedSince]
  exact List.countP_congr fun x _ => by simp

/-- Rows bring no links along. -/
theorem sound_iff_keeps : t.Sound ↔ t.Keeps (fun _ => none) fun _ => 0 := by
  constructor
  · intro hs
    constructor
    case matched => exact fun h => .inr (hs.matched h)
    case kept => exact fun _ h => by cases h
    case counted =>
      intro a s ha
      rw [hs.counted ha, feeders_eq_linkedSince, Nat.zero_add]
  · intro hk
    constructor
    case matched => exact fun h => (hk.matched h).resolve_left nofun
    case counted =>
      intro a s ha
      rw [hk.counted ha, feeders_eq_linkedSince, Nat.zero_add]

/-! ## Inserting -/

theorem size_push {free : t.slotOf? s.id = none} : (t.push s free).size = t.size + 1 :=
  Array.size_push s

theorem get?_push {free : t.slotOf? s.id = none} :
    (t.push s free).get? a = if a = t.size then some s else t.get? a := by
  show (t.rows.push s)[a]? = _
  rw [Array.getElem?_push]
  rfl

theorem outletSlot?_push {free : t.slotOf? s.id = none} :
    (t.push s free).outletSlot? a = if a = t.size then s.outlet else t.outletSlot? a := by
  rw [outletSlot?, get?_push]
  split <;> rfl

theorem Matches.push {free : t.slotOf? s.id = none} (h : t.Matches a b) :
    (t.push s free).Matches a b := by
  obtain ⟨s', o, ha, hb, hid⟩ := h
  refine ⟨s', o, ?_, ?_, hid⟩
  · rw [get?_push, if_neg (Nat.ne_of_lt (get?_lt ha)), ha]
  · rw [get?_push, if_neg (Nat.ne_of_lt (get?_lt hb)), hb]

theorem insert_of_free (free : t.slotOf? s.id = none) :
    t.insert s = (.ok t.size, t.push s free) := by
  unfold insert
  split
  next h => rw [free] at h; cases h
  next => rfl

theorem insert_of_taken (h : t.slotOf? s.id = some a) :
    t.insert s = (.error (.duplicateSegmentId s.id), t) := by
  unfold insert
  split
  next => rfl
  next free => rw [h] at free; cases free

/-- A segment that comes in is linked as it was, and nothing is linked to it yet. -/
theorem Keeps.push {brought brought' : Slot → Option Slot} {credit credit' : Slot → Nat}
    (h : t.Keeps brought credit) (free : t.slotOf? s.id = none)
    (hbrought : ∀ a < t.size, brought' a = brought a) (hnew : brought' t.size = s.outlet)
    (hcredit : ∀ a < t.size, credit' a = credit a) (hnewCredit : credit' t.size = s.linkCount) :
    (t.push s free).Keeps brought' credit' := by
  have hold : ∀ {a b}, t.outletSlot? a = some b → a < t.size := fun hab => by
    obtain ⟨_, ha, -⟩ := outletSlot?_eq_some.mp hab
    exact get?_lt ha
  have hcount : ∀ a, (t.push s free).linkedSince brought' a = t.linkedSince brought a := by
    intro a
    rw [linkedSince, size_push, List.range_succ, List.countP_append, linkedSince]
    have hlast : ([t.size].countP fun x => decide ((t.push s free).outletSlot? x = some a ∧
        brought' x ≠ some a)) = 0 := by
      rw [List.countP_eq_zero]
      simp [outletSlot?_push, hnew]
    rw [hlast, Nat.add_zero]
    refine List.countP_congr fun x hx => ?_
    have hx := List.mem_range.mp hx
    rw [outletSlot?_push, if_neg (Nat.ne_of_lt hx), hbrought x hx]
  constructor
  case matched =>
    intro a b hab
    rw [outletSlot?_push] at hab
    split at hab
    next ha => rw [ha, hnew]; exact .inl hab
    next =>
      rw [hbrought a (hold hab)]
      exact (h.matched hab).imp_right Matches.push
  case kept =>
    intro a b ha hab
    rw [size_push] at ha
    rw [outletSlot?_push]
    split
    next hsize => rw [hsize, hnew] at hab; rw [hab]; nofun
    next hne =>
      have ha : a < t.size := Nat.lt_of_le_of_ne (Nat.le_of_lt_succ ha) hne
      exact h.kept ha (hbrought a ha ▸ hab)
  case counted =>
    intro a s' ha
    rw [hcount]
    rw [get?_push] at ha
    split at ha
    next hsize =>
      cases ha
      subst hsize
      have hnone : t.linkedSince brought t.size = 0 := by
        rw [linkedSince, List.countP_eq_zero]
        intro x _ hx
        rw [decide_eq_true_eq] at hx
        exact Nat.lt_irrefl _ ((h.matched hx.1).resolve_left hx.2).lt
      rw [hnone, hnewCredit, Nat.add_zero]
    next => rw [hcredit a (get?_lt ha), h.counted ha]

namespace Sound

theorem push (hs : t.Sound) (hnew : s.IsNew) (free : t.slotOf? s.id = none) :
    (t.push s free).Sound :=
  sound_iff_keeps.mpr ((sound_iff_keeps.mp hs).push free (fun _ _ => rfl) hnew.1.symm
    (fun _ _ => rfl) hnew.2.symm)

/-- Inserting a row keeps the invariant, taken or not. -/
theorem insert (hs : t.Sound) (r : SegmentRow) : (t.insert r.segment).2.Sound := by
  cases h : t.slotOf? r.segment.id with
  | none => rw [insert_of_free h]; exact hs.push r.isNew_segment h
  | some a => rw [insert_of_taken h]; exact hs

theorem empty : Sound {} where
  matched h := by cases h
  counted h := by cases h

theorem insertRows (hs : t.Sound) (rows : List SegmentRow) : (t.insertRows rows).Sound := by
  induction rows generalizing t with
  | nil => exact hs
  | cons r rest ih => exact ih (hs.insert r)

end Sound

theorem sound_ofRows (rows : List SegmentRow) : (ofRows rows).Sound :=
  Sound.empty.insertRows rows

/-! ## Filling -/

theorem rows_insertRows (h : (t.rows.toList.map (·.id) ++ rows.map (·.id)).Nodup) :
    (t.insertRows rows).rows.toList = t.rows.toList ++ rows.map SegmentRow.segment := by
  induction rows generalizing t with
  | nil => rw [List.map_nil, List.append_nil]; rfl
  | cons r rest ih =>
      have free : t.slotOf? r.segment.id = none := by
        rw [Option.eq_none_iff_forall_not_mem]
        intro a ha
        obtain ⟨s, hs, hid⟩ := slotOf?_eq_some.mp ha
        have hmem : s ∈ t.rows.toList := Array.mem_toList_iff.mpr (mem_rows.mpr ⟨a, hs⟩)
        exact (List.nodup_append.mp h).2.2 s.id (List.mem_map.mpr ⟨s, hmem, rfl⟩) r.id
          List.mem_cons_self hid
      have hpush : (t.push r.segment free).rows.toList = t.rows.toList ++ [r.segment] :=
        Array.toList_push
      have hstep : t.insertRows (r :: rest) = (t.push r.segment free).insertRows rest := by
        show insertRows (t.insert r.segment).2 rest = _
        rw [insert_of_free free]
      rw [hstep, ih, hpush, List.append_assoc]
      · rfl
      · rw [hpush, List.map_append, List.append_assoc]
        exact h

/-- Rows with numbers of their own all find a place, in their order. -/
theorem rows_ofRows (h : (rows.map (·.id)).Nodup) :
    (ofRows rows).rows.toList = rows.map SegmentRow.segment := by
  have hempty : ({} : SegmentTable).rows.toList = [] := rfl
  rw [ofRows, rows_insertRows (by rw [hempty]; exact h), hempty, List.nil_append]

theorem written_ofRows (h : (rows.map (·.id)).Nodup) : (ofRows rows).written = rows := by
  rw [written, rows_ofRows h, List.map_map]
  exact List.map_id rows

theorem size_ofRows (h : (rows.map (·.id)).Nodup) : (ofRows rows).size = rows.length := by
  rw [← length_written, written_ofRows h]

/-- One more row with a number of its own stands behind the others. -/
theorem insert_ofRows {r : SegmentRow} (h : ((rows ++ [r]).map (·.id)).Nodup) :
    (ofRows rows).insert r.segment = (.ok rows.length, ofRows (rows ++ [r])) := by
  have hrows : (rows.map (·.id)).Nodup := by
    rw [List.map_append] at h
    exact (List.nodup_append.mp h).1
  have hafter : ofRows (rows ++ [r]) = ((ofRows rows).insert r.segment).2 := by
    rw [ofRows, insertRows, List.foldl_append]
    rfl
  cases hslot : (ofRows rows).slotOf? r.segment.id with
  | none => rw [hafter, insert_of_free hslot, size_ofRows hrows]
  | some a =>
      -- a row that has the number would be one of the others
      obtain ⟨s, ha, hid⟩ := slotOf?_eq_some.mp hslot
      have hmem : s.toSegmentRow ∈ (ofRows rows).written :=
        List.mem_map.mpr ⟨s, Array.mem_toList_iff.mpr (mem_rows.mpr ⟨a, ha⟩), rfl⟩
      rw [written_ofRows hrows] at hmem
      rw [List.map_append] at h
      exact absurd hid ((List.nodup_append.mp h).2.2 s.id (List.mem_map.mpr ⟨_, hmem, rfl⟩) r.id
        (List.mem_singleton.mpr rfl))

theorem outletSlot?_insert (t : SegmentTable) (r : SegmentRow) (a : Slot) :
    (t.insert r.segment).2.outletSlot? a = t.outletSlot? a := by
  cases h : t.slotOf? r.segment.id with
  | some b => rw [insert_of_taken h]
  | none =>
      rw [insert_of_free h, outletSlot?_push]
      split
      next ha => rw [ha, outletSlot?, get?_eq_none (Nat.le_refl _)]; rfl
      next => rfl

theorem outletSlot?_insertRows (t : SegmentTable) (rows : List SegmentRow) (a : Slot) :
    (t.insertRows rows).outletSlot? a = t.outletSlot? a := by
  induction rows generalizing t with
  | nil => rfl
  | cons r rest ih => exact (ih _).trans (outletSlot?_insert t r a)

/-- Nothing is linked in a table that was only filled. -/
theorem outletSlot?_ofRows (rows : List SegmentRow) (a : Slot) :
    (ofRows rows).outletSlot? a = none :=
  outletSlot?_insertRows {} rows a

/-! ## Linking -/

theorem get?_setOutlet {x : Slot} : (t.setOutlet a b).get? x = (t.get? x).map fun s =>
    { s with
      outlet := if a = x then some b else s.outlet
      linkCount := if b = x then s.linkCount + 1 else s.linkCount } := by
  simp only [get?, setOutlet, Array.getElem?_modify]
  split <;> split <;> cases t.rows[x]? <;> rfl

theorem size_setOutlet : (t.setOutlet a b).size = t.size := by
  simp only [size, setOutlet, Array.size_modify]

theorem written_setOutlet : (t.setOutlet a b).written = t.written := by
  refine List.ext_getElem? fun x => ?_
  rw [getElem?_written, getElem?_written, get?_setOutlet, Option.map_map]
  rfl

theorem outletSlot?_setOutlet {x : Slot} (ha : a < t.size) :
    (t.setOutlet a b).outletSlot? x = if a = x then some b else t.outletSlot? x := by
  rw [outletSlot?, get?_setOutlet]
  split
  · next h =>
      subst h
      obtain ⟨s, hs⟩ := get?_of_lt ha
      rw [hs]
      rfl
  · rw [outletSlot?]
    cases t.get? x <;> rfl

/-- One more slot below `n` is one more to count. -/
theorem countP_range_of_insert {p q : Slot → Bool} {n : Nat} (ha : a < n) (hpa : p a = false)
    (hq : ∀ x, q x = (p x || x == a)) :
    (List.range n).countP q = (List.range n).countP p + 1 := by
  have hperm : ((List.range n).filter q).Perm (a :: (List.range n).filter p) := by
    refine (List.perm_ext_iff_of_nodup (List.nodup_range.filter _) ?_).mpr fun x => ?_
    · refine List.nodup_cons.mpr ⟨fun hmem => ?_, List.nodup_range.filter _⟩
      rw [List.mem_filter, hpa] at hmem
      exact Bool.false_ne_true hmem.2
    · rw [List.mem_cons, List.mem_filter, List.mem_filter, hq, Bool.or_eq_true, beq_iff_eq]
      constructor
      · rintro ⟨hx, hp | rfl⟩
        · exact .inr ⟨hx, hp⟩
        · exact .inl rfl
      · rintro (rfl | ⟨hx, hp⟩)
        · exact ⟨List.mem_range.mpr ha, .inr rfl⟩
        · exact ⟨hx, .inl hp⟩
  rw [List.countP_eq_length_filter, hperm.length_eq, List.length_cons,
    List.countP_eq_length_filter]

/-- A link that is new is one more for the slot it leads to. -/
theorem linkedSince_setOutlet {brought : Slot → Option Slot} {x : Slot} (ha : a < t.size)
    (hbrought : brought a ≠ some b) (hnew : ∀ c, t.outletSlot? a = some c → brought a = some c) :
    (t.setOutlet a b).linkedSince brought x =
      t.linkedSince brought x + if b = x then 1 else 0 := by
  unfold linkedSince
  rw [size_setOutlet]
  split
  next hx =>
    subst hx
    refine countP_range_of_insert ha ?_ fun x => ?_
    · exact decide_eq_false fun hab => hab.2 (hnew b hab.1)
    · rw [outletSlot?_setOutlet ha]
      by_cases hax : a = x
      · subst hax
        simp [hbrought]
      · simp [hax, Ne.symm hax]
  next hx =>
    refine List.countP_congr fun y _ => ?_
    rw [outletSlot?_setOutlet ha]
    split
    next hay =>
      -- the slot has no link to `x` that is new, before or after
      subst hay
      simp only [Option.some.injEq, hx, false_and, decide_false, Bool.false_eq_true, false_iff,
        decide_eq_true_eq, not_and, not_not]
      exact hnew x
    next => rfl

theorem Keeps.setOutlet {brought : Slot → Option Slot} {credit : Slot → Nat}
    (h : t.Keeps brought credit) (hm : t.Matches a b) (hne : t.outletSlot? a ≠ some b) :
    (t.setOutlet a b).Keeps brought credit := by
  have hlt : a < t.size := by
    obtain ⟨_, _, ha, -⟩ := hm
    exact get?_lt ha
  -- the outlet that it had, if it was another one, was brought along
  have hnew : ∀ c, t.outletSlot? a = some c → brought a = some c := fun c hc =>
    (h.matched hc).resolve_right fun hm' => hne (hm'.unique hm ▸ hc)
  have hbrought : brought a ≠ some b := by
    intro hb
    obtain ⟨c, hc⟩ := Option.ne_none_iff_exists'.mp (h.kept hlt hb)
    exact hne (hc.trans ((hnew c hc).symm.trans hb))
  constructor
  case matched =>
    intro x y hxy
    rw [outletSlot?_setOutlet hlt] at hxy
    split at hxy
    next hx => cases hxy; subst hx; exact .inr (hm.written written_setOutlet)
    next => exact (h.matched hxy).imp_right fun hm' => hm'.written written_setOutlet
  case kept =>
    intro x y hx hxy
    rw [outletSlot?_setOutlet hlt]
    split
    next => nofun
    next => exact h.kept (size_setOutlet ▸ hx) hxy
  case counted =>
    intro x s hx
    rw [get?_setOutlet, Option.map_eq_some_iff] at hx
    obtain ⟨s', hx, rfl⟩ := hx
    rw [linkedSince_setOutlet hlt hbrought hnew, ← Nat.add_assoc, ← h.counted hx]
    dsimp only
    split <;> rfl

theorem Sound.setOutlet (hs : t.Sound) (hm : t.Matches a b) (hne : t.outletSlot? a ≠ some b) :
    (t.setOutlet a b).Sound :=
  sound_iff_keeps.mpr ((sound_iff_keeps.mp hs).setOutlet hm hne)

/-- All that linking two slots can do: nothing, because they do not match; nothing,
because they are linked; or write the link. -/
theorem link_cases (t : SegmentTable) (a b : Slot) :
    (¬ t.Matches a b ∧ t.link a b = (false, t)) ∨
    (t.Matches a b ∧ t.outletSlot? a = some b ∧ t.link a b = (true, t)) ∨
    (t.Matches a b ∧ t.outletSlot? a ≠ some b ∧ t.link a b = (true, t.setOutlet a b)) := by
  unfold link
  split
  · next s o ha hb =>
      have houtlet : t.outletSlot? a = s.outlet := by rw [outletSlot?, ha, Option.bind_some]
      split
      · next hno =>
          refine .inl ⟨?_, rfl⟩
          intro hm
          have hne := hm.ne
          obtain ⟨s', o', ha', hb', hid, hne'⟩ := hm
          rw [ha] at ha'
          rw [hb] at hb'
          cases ha'
          cases hb'
          simp [hne, Segment.accepts, hid] at hno
          exact hne' (hid.trans hno)
      · next hyes =>
          simp only [Segment.accepts, Bool.or_eq_true, decide_eq_true_eq, Bool.not_eq_true',
            not_or, Bool.not_eq_false, Bool.and_eq_true, beq_iff_eq, bne_iff_ne] at hyes
          have hm : t.Matches a b := ⟨s, o, ha, hb, hyes.2.1, hyes.2.2⟩
          split
          · next h => exact .inr (.inl ⟨hm, houtlet.trans h, rfl⟩)
          · next h => exact .inr (.inr ⟨hm, fun h' => h (houtlet.symm.trans h'), rfl⟩)
  · next hnone =>
      refine .inl ⟨?_, rfl⟩
      rintro ⟨s, o, ha, hb, _⟩
      exact hnone s o ha hb

/-- In a sound table a match that is not linked yet has no outlet at all. -/
theorem Sound.outletSlot?_of_matches (hs : t.Sound) (hm : t.Matches a b)
    (hne : t.outletSlot? a ≠ some b) : t.outletSlot? a = none := by
  cases h : t.outletSlot? a with
  | none => rfl
  | some b' =>
      rw [(hs.matched h).unique hm] at h
      exact absurd h hne

theorem Sound.link (hs : t.Sound) (a b : Slot) : (t.link a b).2.Sound := by
  rcases link_cases t a b with ⟨_, h⟩ | ⟨_, _, h⟩ | ⟨hm, hne, h⟩ <;> rw [h]
  · exact hs
  · exact hs
  · exact hs.setOutlet hm hne

theorem written_link (t : SegmentTable) (a b : Slot) : (t.link a b).2.written = t.written := by
  rcases link_cases t a b with ⟨_, h⟩ | ⟨_, _, h⟩ | ⟨_, _, h⟩ <;> rw [h]
  exact written_setOutlet

end SegmentTable

end Wellbore
