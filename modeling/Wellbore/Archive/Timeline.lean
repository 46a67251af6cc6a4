import Wellbore.Snapshot
import Wellbore.Archive.Partition

/-!
# Timelines

The snapshots of one well in the order of their times; those of one time keep the
order in which they came. A look-up answers with the latest snapshot at or before
its key, so a key past the last snapshot finds the last one, and a key before the
first finds none.
-/

namespace Wellbore

/-- Why the archive refuses a snapshot or a question. -/
inductive ArchiveError where
  | wellNameMismatch (expected got : String)
  | unknownWell (name : String)
deriving DecidableEq, Repr

def ArchiveError.message : ArchiveError → String
  | .wellNameMismatch expected got =>
    s!"Snapshot of well {got} added to the history of well {expected}"
  | .unknownWell name => s!"Well not found: {name}"

/-- The moment that a question is about. -/
inductive TimeKey where
  | report (step : Int32)
  | time (t : Instant)
deriving DecidableEq, Repr

structure Timeline where
  name : String
  entries : Array Snapshot := #[]
deriving DecidableEq, Inhabited

namespace Timeline

/-- Snapshots in the order of their times, those of one time staying as they are. -/
def sortByTime (entries : Array Snapshot) : Array Snapshot :=
  (entries.toList.mergeSort fun a b => a.simTime.notAfter b.simTime).toArray

/-- Whether a snapshot lies before the last entry. -/
def outOfOrder (tl : Timeline) (s : Snapshot) : Bool :=
  tl.entries.back?.any fun last => s.simTime.before last.simTime

/-- Adds a snapshot of this well, sorting again if it comes out of order: whether it
was added, and the timeline after. -/
def add (tl : Timeline) (s : Snapshot) : Except ArchiveError Unit × Timeline :=
  if s.name ≠ tl.name then (.error (.wellNameMismatch tl.name s.name), tl)
  else
    let entries := tl.entries.push s
    (.ok (), { tl with entries := if tl.outOfOrder s then sortByTime entries else entries })

theorem name_add (tl : Timeline) (s : Snapshot) : (tl.add s).2.name = tl.name := by
  unfold add
  split <;> rfl

def size (tl : Timeline) : Nat := tl.entries.size

def first? (tl : Timeline) : Option Snapshot := tl.entries[0]?

def last? (tl : Timeline) : Option Snapshot := tl.entries.back?

def at? (tl : Timeline) (n : Nat) : Option Snapshot := tl.entries[n]?

/-- The last of the leading entries that pass a test. -/
def lastPassing? (tl : Timeline) (test : Snapshot → Bool) : Option Snapshot :=
  match Bisection.partitionPoint tl.entries test with
  | 0 => none
  | n + 1 => tl.entries[n]?

/-- The latest snapshot at or before a time. -/
def atTime? (tl : Timeline) (t : Instant) : Option Snapshot :=
  tl.lastPassing? fun s => s.simTime.notAfter t

/-- The latest snapshot at or before a report step; steps are taken to grow with
time. -/
def atReport? (tl : Timeline) (step : Int32) : Option Snapshot :=
  tl.lastPassing? fun s => s.reportStep ≤ step

/-- The latest snapshot at or before a key. -/
def lookup? (tl : Timeline) : TimeKey → Option Snapshot
  | .report step => tl.atReport? step
  | .time t => tl.atTime? t

end Timeline

end Wellbore
