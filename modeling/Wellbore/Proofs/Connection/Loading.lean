import Wellbore.Connection.Basic
import Wellbore.Proofs.Restart.Rows
import Mathlib.Data.List.Forall2

/-!
# What loading connections gives

Loading decodes one row after the other and fails with the first row that cannot
be decoded, so a list that comes back holds the decoded rows in order. The grid
of a connection is that of the records it was read from, and it names a segment
if and only if the caller says that the well is segmented.
-/

namespace Wellbore

namespace Connection

variable {h : ReportHeader} {r : GridRecords} {well row left : Nat} {segmented : Bool}
  {c : Connection} {cs : List Connection} {w : WellHeader} {ints : Array Int32}
  {id : Option Int32}

theorem segmentIdOf_eq_ok : segmentIdOf ints segmented = .ok id ↔
    if segmented then ∃ v, ints[segmentColumn]? = some v ∧ id = some v else id = none := by
  unfold segmentIdOf
  cases segmented with
  | false => simp [eq_comm]
  | true =>
      cases hfield : fieldOf ints .icon segmentColumn with
      | error e =>
          have hnone : ∀ v, ints[segmentColumn]? ≠ some v := fun v hv => by
            rw [fieldOf_eq_ok.mpr hv] at hfield
            cases hfield
          simp [Except.map, hnone]
      | ok v =>
          rw [fieldOf_eq_ok] at hfield
          simp [Except.map, hfield, eq_comm]

/-- A row decodes if and only if its integers, its columns and its reals can be had. -/
theorem decode_eq_ok : decode h r well row segmented = .ok c ↔
    ∃ ints id reals i j k status direction,
      r.connectionRow h well row = .ok ints ∧ segmentIdOf ints segmented = .ok id ∧
      r.connectionReals h well row = .ok reals ∧ ints[iColumn]? = some i ∧
      ints[jColumn]? = some j ∧ ints[kColumn]? = some k ∧ ints[statusColumn]? = some status ∧
      ints[directionColumn]? = some direction ∧
      c = { grid := r.grid
            cell := ⟨fromOne i, fromOne j, fromOne k⟩
            isOpen := 0 < status
            direction := Direction.ofCode? direction
            segmentId := id
            factor := reals.bind fun reals => reals[factorColumn]? } := by
  unfold decode
  simp only [bind_eq_ok, fieldOf_eq_ok, pure_eq_ok]
  constructor
  · rintro ⟨ints, hints, id, hid, reals, hreals, i, hi, j, hj, k, hk, status, hstatus,
      direction, hdirection, rfl⟩
    exact ⟨ints, id, reals, i, j, k, status, direction, hints, hid, hreals, hi, hj, hk, hstatus,
      hdirection, rfl⟩
  · rintro ⟨ints, id, reals, i, j, k, status, direction, hints, hid, hreals, hi, hj, hk,
      hstatus, hdirection, rfl⟩
    exact ⟨ints, hints, id, hid, reals, hreals, i, hi, j, hj, k, hk, status, hstatus,
      direction, hdirection, rfl⟩

theorem grid_of_decode (hc : decode h r well row segmented = .ok c) : c.grid = r.grid := by
  obtain ⟨_, _, _, _, _, _, _, _, -, -, -, -, -, -, -, -, rfl⟩ := decode_eq_ok.mp hc
  rfl

theorem isSome_segmentId_of_decode (hc : decode h r well row segmented = .ok c) :
    c.segmentId.isSome = segmented := by
  obtain ⟨_, id, _, _, _, _, _, _, -, hid, -, -, -, -, -, -, rfl⟩ := decode_eq_ok.mp hc
  rw [segmentIdOf_eq_ok] at hid
  cases segmented with
  | false =>
      rw [if_neg Bool.false_ne_true] at hid
      simp [hid]
  | true =>
      rw [if_pos rfl] at hid
      obtain ⟨v, -, rfl⟩ := hid
      rfl

/-- The connections that come back are those of the rows, in order. -/
theorem decodeFrom_eq_ok : decodeFrom h r well segmented left row = .ok cs ↔
    List.Forall₂ (fun n c => decode h r well n segmented = .ok c) (List.range' row left) cs := by
  induction left generalizing row cs with
  | zero =>
      unfold decodeFrom
      rw [List.range'_zero, List.forall₂_nil_left_iff]
      simp [eq_comm]
  | succ left ih =>
      unfold decodeFrom
      simp only [bind_eq_ok, pure_eq_ok]
      rw [List.range'_succ, List.forall₂_cons_left_iff]
      constructor
      · rintro ⟨c, hc, cs, hcs, rfl⟩
        exact ⟨c, cs, hc, ih.mp hcs, rfl⟩
      · rintro ⟨c, cs, hc, hcs, rfl⟩
        exact ⟨c, hc, cs, ih.mpr hcs, rfl⟩

theorem load_eq_ok : load h r w segmented = .ok cs ↔
    List.Forall₂ (fun n c => decode h r w.well n segmented = .ok c)
      (List.range (min w.connections h.maxConnections)) cs := by
  unfold load
  rw [decodeFrom_eq_ok, List.range_eq_range']

/-- Every loaded connection has been decoded from some row. -/
theorem decode_of_mem_load (hcs : load h r w segmented = .ok cs) (hc : c ∈ cs) :
    ∃ row, decode h r w.well row segmented = .ok c := by
  obtain ⟨n, hn⟩ := List.mem_iff_getElem?.mp hc
  have hall := List.forall₂_iff_get.mp (load_eq_ok.mp hcs)
  obtain ⟨hlt, rfl⟩ := List.getElem?_eq_some_iff.mp hn
  exact ⟨_, hall.2 n (by rw [hall.1]; exact hlt) hlt⟩

theorem grid_of_mem_load (hcs : load h r w segmented = .ok cs) (hc : c ∈ cs) :
    c.grid = r.grid := by
  obtain ⟨row, hrow⟩ := decode_of_mem_load hcs hc
  exact grid_of_decode hrow

end Connection

end Wellbore
