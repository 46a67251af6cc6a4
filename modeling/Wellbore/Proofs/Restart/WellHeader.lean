import Wellbore.Restart.WellHeader
import Wellbore.Proofs.Restart.Rows

/-!
# Which rows decode to a well header

The row of a well decodes if and only if the well is in the list, its row can be
cut out of the record, and every column that is read lies in the row. The column
of the segment block is the one that may be missing.
-/

namespace Wellbore

namespace WellHeader

variable {h : ReportHeader} {r : GridRecords} {well : Nat} {w : WellHeader}

theorem decode_eq_ok : decode h r well = .ok w ↔
    ∃ name row i j k connections kind status,
      r.wellName well = .ok name ∧ r.wellRow h well = .ok row ∧
      row[headIColumn]? = some i ∧ row[headJColumn]? = some j ∧ row[headKColumn]? = some k ∧
      row[connectionsColumn]? = some connections ∧ row[kindColumn]? = some kind ∧
      row[statusColumn]? = some status ∧
      w = { name, grid := r.grid, well
            wellhead := ⟨fromOne i, fromOne j, fromOne k⟩
            connections := connections.toInt.toNat
            kind := WellKind.ofCode kind
            isOpen := 0 < status
            segmentBlock := segmentBlockOf row } := by
  unfold decode
  simp only [bind_eq_ok, fieldOf_eq_ok, pure_eq_ok]
  constructor
  · rintro ⟨name, hname, row, hrow, i, hi, j, hj, k, hk, connections, hconnections, kind, hkind,
      status, hstatus, rfl⟩
    exact ⟨name, row, i, j, k, connections, kind, status, hname, hrow, hi, hj, hk, hconnections,
      hkind, hstatus, rfl⟩
  · rintro ⟨name, row, i, j, k, connections, kind, status, hname, hrow, hi, hj, hk, hconnections,
      hkind, hstatus, rfl⟩
    exact ⟨name, hname, row, hrow, i, hi, j, hj, k, hk, connections, hconnections, kind, hkind,
      status, hstatus, rfl⟩

theorem well_of_decode (hw : decode h r well = .ok w) : w.well = well := by
  obtain ⟨_, _, _, _, _, _, _, _, -, -, -, -, -, -, -, -, rfl⟩ := decode_eq_ok.mp hw
  rfl

/-- A well goes by the name under which its grid lists it. -/
theorem name_of_decode (hw : decode h r well = .ok w) : r.wellNames[well]? = some w.name := by
  obtain ⟨_, _, _, _, _, _, _, _, hname, -, -, -, -, -, -, -, rfl⟩ := decode_eq_ok.mp hw
  exact GridRecords.wellName_eq_ok.mp hname

end WellHeader

end Wellbore
