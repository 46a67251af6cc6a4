import Wellbore.Segment.Linking

/-!
# Branches

A branch is a chain of linked segments with one branch number, as long as can be.
Only the deepest segment of it, its start, is kept; the members are found again
by following the links. A number can name several chains, when a well enters the
main bore more than once; chains with one number that run into each other are a
fork, and a well with a fork has no branches at all.
-/

namespace Wellbore

/-- A chain of segments with one branch number. -/
structure Branch where
  branchId : Int32
  start : Slot
deriving DecidableEq, Repr, Inhabited

namespace SegmentTable

/-- The slot that the segment at `s` drains into within one branch. -/
def nextInBranch? (t : SegmentTable) (branchId : Int32) (s : Slot) : Option Slot :=
  (t.outletSlot? s).filter fun o => (t.get? o).any fun seg => seg.branchId == branchId

/-- The number of the segment at a slot, zero for none. -/
def idAt (t : SegmentTable) (s : Slot) : Int32 := ((t.get? s).map (·.id)).getD 0

end SegmentTable

namespace Branch

/-- The members of the branch, from its start towards the wellhead. -/
def walk (b : Branch) (t : SegmentTable) : List Slot :=
  Slot.walk (t.nextInBranch? b.branchId) t.size b.start

/-- The segment of another branch that this one drains into. -/
def junction? (b : Branch) (t : SegmentTable) : Option Slot := do
  let last ← (b.walk t).getLast?
  let outlet ← t.outletSlot? last
  let s ← t.get? outlet
  if s.branchId == b.branchId then none else some outlet

/-- The whole way from the start to the wellhead. -/
def path (b : Branch) (t : SegmentTable) : List Slot := t.outletChain b.start

end Branch

/-- The branches of a table, with the position of the first branch of every number. -/
structure BranchList where
  branches : List Branch
  index : SortedMap Int32 Nat
deriving DecidableEq, Inhabited

namespace BranchList

instance : EmptyCollection BranchList := ⟨⟨[], {}⟩⟩

def length (bs : BranchList) : Nat := bs.branches.length

/-- Makes the index anew: of the branches of one number it keeps the first. -/
def reindex (bs : BranchList) : BranchList :=
  { bs with
    index := bs.branches.zipIdx.foldl (fun index (b, n) =>
      if index.contains b.branchId then index else index.insert b.branchId n) {} }

def ofBranches (bs : List Branch) : BranchList := reindex ⟨bs, {}⟩

/-- The chains of a number, in the order of their starts. -/
def chains (bs : BranchList) (branchId : Int32) : List Branch :=
  bs.branches.filter fun b => b.branchId == branchId

def at? (bs : BranchList) (n : Nat) : Option Branch := bs.branches[n]?

def has (bs : BranchList) (branchId : Int32) : Bool := bs.index.contains branchId

/-- The first chain of a number. -/
def find? (bs : BranchList) (branchId : Int32) : Option Branch :=
  (bs.index.get? branchId).bind bs.at?

/-- The start of the first chain of a number. -/
def start? (bs : BranchList) (branchId : Int32) : Option Slot :=
  (bs.find? branchId).map Branch.start

end BranchList

/-! ## Sorting branches by their numbers

The sort is stable: branches of one number stay in the order in which they come. -/

namespace Branch

/-- Whether the number of `b` has a place among `ids` that is not after that of `c`. -/
def notAfter (ids : List Int32) (b c : Branch) : Bool :=
  (compare (ids.idxOf? b.branchId) (ids.idxOf? c.branchId)).isLE

/-- Puts a branch in front of the first one that it is not after. -/
def place (ids : List Int32) (b : Branch) : List Branch → List Branch
  | [] => [b]
  | c :: rest => if b.notAfter ids c then b :: c :: rest else c :: place ids b rest

/-- Branches in the order that `ids` gives to their numbers. -/
def sortByNumber (ids : List Int32) (bs : List Branch) : List Branch := bs.foldr (place ids) []

end Branch

namespace SegmentTable

/-- The first segment that has an outlet but has not been linked to it. -/
def unlinked? (t : SegmentTable) : Option TopologyError :=
  t.rows.toList.findSome? fun s =>
    if !s.nearestWellhead && s.outlet.isNone then some (.unlinked s.id s.outletId) else none

/-- Slots and segments in use, in order. -/
def activeEntries (t : SegmentTable) : List (Slot × Segment) :=
  t.entries.filter fun (_, s) => s.active

/-- Whether a segment in use drains into slot `o` within its own branch. -/
def isFed (t : SegmentTable) (o : Slot) : Bool :=
  t.activeEntries.any fun (_, s) =>
    s.outlet = some o && (t.get? o).any fun outlet => outlet.branchId == s.branchId

/-- A start is a segment in use that no member of its own branch drains into. -/
def starts (t : SegmentTable) : List Branch :=
  (t.activeEntries.filter fun (slot, _) => !t.isFed slot).map
    fun (slot, s) => ⟨s.branchId, slot⟩

/-- The branch numbers in use, in the order of their first rows. -/
def branchIds (t : SegmentTable) : List Int32 :=
  (t.activeEntries.map fun (_, s) => s.branchId).eraseDups

/-- The first slot that two chains, or one chain twice, lay claim to: the start that
claimed it and the branch that wants it. `claimed` holds slots with the start that
has them. -/
def clash? (claimed : List (Slot × Slot)) : List (Slot × Branch) → Option (Slot × Branch)
  | [] => none
  | (slot, b) :: rest =>
    match claimed.lookup slot with
    | some owner => some (owner, b)
    | none => clash? ((slot, b.start) :: claimed) rest

/-- Every member of the given branches, with its branch. -/
def claims (t : SegmentTable) (bs : List Branch) : List (Slot × Branch) :=
  bs.flatMap fun b => (b.walk t).map fun slot => (slot, b)

/-- Decomposes a linked table into branches. The starts are found row by row; in the end
they are sorted by the places at which their numbers were first met. -/
def decompose (t : SegmentTable) : Except TopologyError BranchList :=
  match t.unlinked? with
  | some e => .error e
  | none =>
    let starts := t.starts
    let ids := t.branchIds
    match ids.find? fun id => !starts.any fun b => b.branchId == id with
    | some id => .error (.branchWithoutStart id)
    | none =>
      match clash? [] (t.claims starts) with
      | some (owner, b) =>
        .error (.ambiguousBranchStart b.branchId (t.idAt owner) (t.idAt b.start))
      | none => .ok (.ofBranches (Branch.sortByNumber ids starts))

end SegmentTable

end Wellbore
