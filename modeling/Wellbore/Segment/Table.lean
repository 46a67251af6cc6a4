import Wellbore.Segment.Basic
import Wellbore.SortedMap
import Wellbore.Topology.Error

/-!
# The segment table of a well

The table owns its segments and keeps them in the order in which they were
inserted; a slot, once given out, means the same segment for good. Numbers are
unique, and an index leads from a number to the slot that has it. The index is
kept along with the rows: no table can be made in which the two disagree.

Links are only made by `link`, which checks that the numbers match and counts
each link once.
-/

namespace Wellbore

/-- An index of some rows: it leads from a number to the slot of the segment that has
it, and from no number that is not there. -/
def SegmentTable.Indexed (rows : Array Segment) (index : SortedMap Int32 Slot) : Prop :=
  ∀ id slot, index.get? id = some slot ↔ rows[slot]?.map (·.id) = some id

namespace SegmentTable.Indexed

variable {rows rows' : Array Segment} {index : SortedMap Int32 Slot}

theorem empty : Indexed #[] {} := fun _ _ => by simp [SortedMap.get?_empty]

/-- A segment behind the others goes into the index under its number, which was free. -/
theorem push (h : Indexed rows index) {s : Segment} (free : index.get? s.id = none) :
    Indexed (rows.push s) (index.insert s.id rows.size) := by
  intro id slot
  rw [Array.getElem?_push]
  by_cases hid : id = s.id
  · subst hid
    rw [SortedMap.get?_insert_self]
    split
    next hslot => simp [hslot]
    next hslot =>
      -- no earlier slot has the number either
      rw [← h, free, Option.some.injEq]
      exact ⟨fun heq => absurd heq.symm hslot, nofun⟩
  · rw [SortedMap.get?_insert_of_ne hid, h]
    split
    next hslot =>
      subst hslot
      simpa using Ne.symm hid
    next => rfl

/-- An index looks at nothing but numbers. -/
theorem of_ids (h : Indexed rows index)
    (hids : ∀ slot : Slot, rows'[slot]?.map (·.id) = rows[slot]?.map (·.id)) :
    Indexed rows' index := fun id slot => by rw [hids, h]

theorem modify (h : Indexed rows index) (slot : Slot) {f : Segment → Segment}
    (hid : ∀ s, (f s).id = s.id) : Indexed (rows.modify slot f) index :=
  h.of_ids fun slot' => by
    rw [Array.getElem?_modify]
    split
    · rw [Option.map_map]
      exact congrArg (Option.map · _) (funext hid)
    · rfl

end SegmentTable.Indexed

/-- All segments of one well at one report. -/
structure SegmentTable where
  rows : Array Segment
  /-- The slot of every number. -/
  index : SortedMap Int32 Slot
  indexed : SegmentTable.Indexed rows index
deriving DecidableEq

namespace SegmentTable

instance : EmptyCollection SegmentTable := ⟨⟨#[], {}, .empty⟩⟩

instance : Inhabited SegmentTable := ⟨{}⟩

/-- The number of segments, in use or not. -/
def size (t : SegmentTable) : Nat := t.rows.size

def get? (t : SegmentTable) (s : Slot) : Option Segment := t.rows[s]?

def slotOf? (t : SegmentTable) (id : Int32) : Option Slot := t.index.get? id

def withId? (t : SegmentTable) (id : Int32) : Option Segment := (t.slotOf? id).bind t.get?

/-- Slots and segments, in order. -/
def entries (t : SegmentTable) : List (Slot × Segment) :=
  t.rows.toList.zipIdx.map fun (s, slot) => (slot, s)

def activeCount (t : SegmentTable) : Nat := t.rows.countP Segment.active

/-- Puts a segment behind the others, under a number that is still free. -/
def push (t : SegmentTable) (s : Segment) (free : t.slotOf? s.id = none) : SegmentTable where
  rows := t.rows.push s
  index := t.index.insert s.id t.size
  indexed := t.indexed.push free

/-- Appends a segment whose number is still free: its slot, and the table after. -/
def insert (t : SegmentTable) (s : Segment) : Except TopologyError Slot × SegmentTable :=
  match free : t.slotOf? s.id with
  | some _ => (.error (.duplicateSegmentId s.id), t)
  | none => (.ok t.size, t.push s free)

/-- Inserts a segment and hands out its slot; `none` if it would come to stand at a slot
that no handle names, which is a mistake of the caller. -/
def insert? (t : SegmentTable) (s : Segment) :
    Option (Except TopologyError Slot × SegmentTable) :=
  match t.insert s with
  | (.error e, t) => some (.error e, t)
  | (.ok slot, t) => (Slot.ofNat? slot).map fun slot => (.ok slot, t)

/-- Appends the segments of some rows; one whose number is taken is left out. -/
def insertRows (t : SegmentTable) (rows : List SegmentRow) : SegmentTable :=
  rows.foldl (fun t r => (t.insert r.segment).2) t

def ofRows (rows : List SegmentRow) : SegmentTable := insertRows {} rows

/-- The segments in use that drain into the wellhead. -/
def roots (t : SegmentTable) : List (Slot × Segment) :=
  t.entries.filter fun (_, s) => s.active && s.nearestWellhead

/-- The slot that the segment at `s` has been linked to. -/
def outletSlot? (t : SegmentTable) (s : Slot) : Option Slot := (t.get? s).bind Segment.outlet

/-- The segment that the segment at `s` has been linked to. -/
def outletOf? (t : SegmentTable) (s : Slot) : Option Segment := (t.outletSlot? s).bind t.get?

/-- Writes the link from `segment` to `outlet`. -/
def setOutlet (t : SegmentTable) (segment outlet : Slot) : SegmentTable where
  rows := (t.rows.modify segment fun s => { s with outlet := some outlet }).modify outlet
    fun s => { s with linkCount := s.linkCount + 1 }
  index := t.index
  indexed := by
    refine (t.indexed.modify segment ?_).modify outlet ?_
    · exact fun _ => rfl
    · exact fun _ => rfl

/-- Links `segment` to `candidate`, if that is its outlet: whether it now is linked
to it, and the table after. A link that exists already is left as it is. -/
def link (t : SegmentTable) (segment candidate : Slot) : Bool × SegmentTable :=
  match t.get? segment, t.get? candidate with
  | some s, some c =>
    if segment = candidate || !s.accepts c then (false, t)
    else if s.outlet = some candidate then (true, t)
    else (true, t.setOutlet segment candidate)
  | _, _ => (false, t)

/-- Links two segments that are known to match; `none` if they do not, which is a
mistake of the caller. -/
def linkMatching? (t : SegmentTable) (segment candidate : Slot) : Option SegmentTable :=
  match t.link segment candidate with
  | (true, t) => some t
  | (false, _) => none

/-- The way from a segment of the table towards the wellhead, that segment
included. A chain that closes on itself is cut after as many steps as there are
segments. -/
def outletChain (t : SegmentTable) (s : Slot) : List Slot :=
  if (t.get? s).isSome then Slot.walk t.outletSlot? t.size s else []

/-- The numbers of the segments at some slots. -/
def idsAt (t : SegmentTable) (slots : List Slot) : List Int32 :=
  slots.filterMap fun s => (t.get? s).map (·.id)

end SegmentTable

end Wellbore
