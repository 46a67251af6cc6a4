import Wellbore.Archive.Timeline

/-!
# The archive of a case

Every well has a timeline of its own, so adding a snapshot never touches another
well.
-/

namespace Wellbore

/-- The timelines of all wells, each under the name of its well. -/
structure Archive where
  wells : SortedMap String Timeline := {}
  named : ∀ e ∈ wells.entries, e.2.name = e.1 := by exact fun _ h => nomatch h

namespace Archive

instance : Inhabited Archive := ⟨{}⟩

instance : DecidableEq Archive := fun a b =>
  if h : a.wells = b.wells then
    .isTrue (by cases a; cases b; cases h; rfl)
  else .isFalse fun hab => h (by rw [hab])

def timeline? (a : Archive) (name : String) : Option Timeline := a.wells.get? name

/-- The timeline of a well, empty for a new one. -/
def timelineOf (a : Archive) (name : String) : Timeline :=
  (a.timeline? name).getD { name }

theorem name_timelineOf (a : Archive) (name : String) : (a.timelineOf name).name = name := by
  unfold timelineOf
  cases h : a.timeline? name with
  | none => rfl
  | some tl => exact a.named _ (SortedMap.mem_of_get? h)

/-- The names of the wells, in order. -/
def names (a : Archive) : List String := a.wells.keys

/-- Archives a snapshot under the name of its well: whether it was added, and the
archive after, which then has a timeline for the well. -/
def add (a : Archive) (s : Snapshot) : Except ArchiveError Unit × Archive :=
  let step := (a.timelineOf s.name).add s
  (step.1, {
    wells := a.wells.insert s.name step.2
    named := fun e he => by
      rcases SortedMap.mem_place he with rfl | he
      · exact (Timeline.name_add _ s).trans (a.name_timelineOf s.name)
      · exact a.named e he })

/-- Archives snapshots one after the other; the first that is refused ends it. -/
def addAll (a : Archive) : List Snapshot → Except ArchiveError Unit × Archive
  | [] => (.ok (), a)
  | s :: rest =>
    match a.add s with
    | (.ok (), a) => addAll a rest
    | (.error e, a) => (.error e, a)

/-- The latest snapshot of a well at or before a key. -/
def snapshotAt (a : Archive) (name : String) (key : TimeKey) :
    Except ArchiveError (Option Snapshot) :=
  match a.timeline? name with
  | some tl => .ok (tl.lookup? key)
  | none => .error (.unknownWell name)

end Archive

end Wellbore
