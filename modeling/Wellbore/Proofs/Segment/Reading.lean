import Wellbore.Proofs.Segment.Loading
import Wellbore.Proofs.Restart.Agreement

/-!
# A reader shows nothing but its records

What a reader holds from earlier rows is overwritten column by column before any of it
is given out, so it never shows in an answer. `Alike` says this of two readers at once,
over records that agree on the block that is read: they answer the same, and each of
them goes on over the records it had.
-/

namespace Wellbore

/-- Two readers have come to the same answer, and differ from before in what they hold
at most. -/
def RealsReader.Alike {ε α : Type} (h : ReportHeader) (r r' : GridRecords)
    (x y : Except ε α × RealsReader) : Prop :=
  ∃ answer k k', x = (answer, ⟨h, r, k⟩) ∧ y = (answer, ⟨h, r', k'⟩)

open GridRecords (SameShape SameSegments)
open RealsReader (Alike)

variable {h : ReportHeader} {r r' : GridRecords} {well block row : Nat}

theorem RealsReader.read_alike (well : Nat) (held held' : SegmentReals) (hshape : r.SameShape r')
    (hsame : SameSegments h block r r') (hrow : row < h.maxSegments) :
    Alike h r r' (read ⟨h, r, held⟩ well block row) (read ⟨h, r', held'⟩ well block row) := by
  obtain ⟨k, hread⟩ := read_eq ⟨h, r, held⟩ well block row
  obtain ⟨k', hread'⟩ := read_eq ⟨h, r', held'⟩ well block row
  rw [hread, hread', GridRecords.segmentReals_congr hshape hsame hrow]
  exact ⟨_, k, k', rfl, rfl⟩

theorem Segment.linksOfRow_congr (hshape : r.SameShape r') (hsame : SameSegments h block r r')
    (hrow : row < h.maxSegments) :
    linksOfRow h r well block row = linksOfRow h r' well block row := by
  unfold linksOfRow
  rw [GridRecords.segmentRow_congr hshape hsame hrow]

namespace SegmentTable

theorem readRows_alike (well left row : Nat) (t : SegmentTable) (held held' : SegmentReals)
    (hshape : r.SameShape r') (hsame : SameSegments h block r r')
    (hbound : row + left ≤ h.maxSegments) :
    Alike h r r' (readRows well block left row t ⟨h, r, held⟩)
      (readRows well block left row t ⟨h, r', held'⟩) := by
  induction left generalizing row t held held' with
  | zero => exact ⟨.ok t, held, held', rfl, rfl⟩
  | succ left ih =>
      have hrow : row < h.maxSegments := by omega
      obtain ⟨answer, k, k', hread, hread'⟩ :=
        RealsReader.read_alike well held held' hshape hsame hrow
      unfold readRows
      rw [hread, hread']
      dsimp only
      rw [Segment.linksOfRow_congr hshape hsame hrow]
      cases Segment.linksOfRow h r' well block row with
      | error e => exact ⟨_, held, held', rfl, rfl⟩
      | ok links =>
          cases answer with
          | error e => exact ⟨_, k, k', rfl, rfl⟩
          | ok reals =>
              dsimp only
              split
              next => exact ⟨_, k, k', rfl, rfl⟩
              next => exact ih _ _ _ _ (by omega)

/-- Loading the table of a well looks at the block of that well only. -/
theorem load_alike (held held' : SegmentReals) (hshape : r.SameShape r')
    (hdecode : WellHeader.decode h r well = WellHeader.decode h r' well)
    (hsame : ∀ w block, WellHeader.decode h r well = .ok w → w.segmentBlock = some block →
      SameSegments h block r r') :
    Alike h r r' (load ⟨h, r, held⟩ well) (load ⟨h, r', held'⟩ well) := by
  unfold load
  dsimp only
  rw [← hdecode]
  rcases hw : WellHeader.decode h r well with e | w
  · exact ⟨_, held, held', rfl, rfl⟩
  · dsimp only
    cases hblock : w.segmentBlock with
    | none => exact ⟨_, held, held', rfl, rfl⟩
    | some block =>
        dsimp only
        rcases GridRecords.segmentRecord_congr well hshape with
          ⟨e, hxs, hys⟩ | ⟨xs, ys, hxs, hys⟩
        · rw [hxs, hys]
          exact ⟨_, held, held', rfl, rfl⟩
        · obtain ⟨answer, k, k', hrows, hrows'⟩ :=
            readRows_alike well h.maxSegments 0 {} held held' hshape (hsame w block hw hblock)
              (by omega)
          rw [hxs, hys]
          dsimp only
          rw [hrows, hrows']
          cases answer with
          | error e => exact ⟨_, k, k', rfl, rfl⟩
          | ok t => exact ⟨_, k, k', rfl, rfl⟩

end SegmentTable

end Wellbore
