import Wellbore.Segment.Table

/-!
# Linking a whole table

`linkAll` turns every outlet number into a link and then looks at what came of
it. It answers with the number of links only if the links form a forest that
drains into the wellhead: every outlet exists, no segment in use drains into one
that is not, and every chain ends.

What fails after the links have been made leaves them in place, so the table
after is part of every answer.
-/

namespace Wellbore

/-- How linking a table can fail. -/
inductive LinkFailure where
  /-- The table is no forest. -/
  | topology (cause : TopologyError)
  /-- A link was refused although the numbers had been matched. -/
  | refused (segment candidate : Slot)
deriving DecidableEq

namespace SegmentTable

/-- The slot a segment is to be linked to; none for one that drains into the
wellhead. -/
def target (t : SegmentTable) (s : Segment) : Except TopologyError (Option Slot) :=
  if s.nearestWellhead then .ok none
  else if s.outletId == s.id then .error (.selfOutlet s.id)
  else match t.slotOf? s.outletId with
    | some outlet => .ok (some outlet)
    | none => .error (.unknownOutlet s.id s.outletId)

/-- The links that the given segments ask for, in order. -/
def targets (t : SegmentTable) : List (Slot × Segment) →
    Except TopologyError (List (Slot × Slot))
  | [] => .ok []
  | (slot, s) :: rest => do
    match ← t.target s with
    | none => targets t rest
    | some outlet => return (slot, outlet) :: (← targets t rest)

/-- Makes links one after the other; also the first that is refused. -/
def linkEach (t : SegmentTable) : List (Slot × Slot) → Option (Slot × Slot) × SegmentTable
  | [] => (none, t)
  | (segment, outlet) :: rest =>
    match t.linkMatching? segment outlet with
    | some t => linkEach t rest
    | none => (some (segment, outlet), t)

/-- The first segment in use that drains into one that is not. -/
def inactiveOutlet? (t : SegmentTable) : Option TopologyError :=
  t.rows.toList.findSome? fun s =>
    if s.active then
      match s.outlet.bind t.get? with
      | some o => if o.active then none else some (.inactiveOutlet s.id o.id)
      | none => none
    else none

/-- The slots from `s` on along the links, up to one whose chain is known to end; none
if more than `limit` come before that. -/
def unsettledFrom (t : SegmentTable) (settled : Array Bool) :
    (limit : Nat) → Slot → Option (List Slot)
  | 0, s => if settled.getD s false then some [] else none
  | limit + 1, s =>
    if settled.getD s false then some []
    else match t.outletSlot? s with
      | some next => (unsettledFrom t settled limit next).map (s :: ·)
      | none => some [s]

/-- Notes of some slots that their chains end. -/
def settle (settled : Array Bool) (slots : List Slot) : Array Bool :=
  slots.foldl (fun settled s => settled.setIfInBounds s true) settled

/-- The first of the given segments whose chain does not end; a chain that ends takes
no more steps than there are segments. What one chain has shown is not walked again. -/
def cycleFrom? (t : SegmentTable) : (settled : Array Bool) → List (Slot × Segment) →
    Option TopologyError
  | _, [] => none
  | settled, (slot, s) :: rest =>
    match t.unsettledFrom settled t.size slot with
    | some walked => cycleFrom? t (settle settled walked) rest
    | none => some (.outletCycle s.id t.size)

/-- The first segment whose chain does not end. -/
def outletCycle? (t : SegmentTable) : Option TopologyError :=
  t.cycleFrom? (Array.replicate t.size false) t.entries

/-- What is wrong with the links of a table, if anything. -/
def linkFault? (t : SegmentTable) : Option TopologyError :=
  t.inactiveOutlet?.or t.outletCycle?

/-- Links every segment to its outlet: the number of links, or what is wrong, and
the table after. Nothing is linked if some outlet cannot be found. -/
def linkAll (t : SegmentTable) : Except LinkFailure Nat × SegmentTable :=
  match t.targets t.entries with
  | .error e => (.error (.topology e), t)
  | .ok links =>
    match t.linkEach links with
    | (some (segment, outlet), t) => (.error (.refused segment outlet), t)
    | (none, t) =>
      match t.linkFault? with
      | some e => (.error (.topology e), t)
      | none => (.ok links.length, t)

end SegmentTable

end Wellbore
