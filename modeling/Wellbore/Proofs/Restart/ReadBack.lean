import Wellbore.Proofs.Restart.Writing
import Wellbore.Proofs.Restart.WellHeader
import Wellbore.Proofs.Connection.Loading

/-!
# Reading a planned report

What has been written for a well is what its decoders find. The header says where
the blocks of a well are, and both sides count the same blocks, so every row is
read where it was written and every column gives its own value.
-/

namespace Wellbore

open WellPlan (hasSegments)
open ReportPlan (GridPlan)

/-! ## What a plan says -/

/-- A cell that is written counted from one; what is not positive becomes zero. -/
def cellFromOne (i j k : Int32) : Cell :=
  ⟨(i.toInt - 1).toNat, (j.toInt - 1).toNat, (k.toInt - 1).toNat⟩

/-- The connection of a plan. -/
def ConnectionPlan.connection (grid : GridName) (segmented : Bool) (c : ConnectionPlan) :
    Connection where
  grid
  cell := cellFromOne c.i c.j c.k
  isOpen := c.isOpen
  direction := Direction.ofCode? c.direction
  segmentId := if segmented then some c.segment else none
  factor := some c.factor

/-- The header of a planned well, which comes after `block` wells with segments. -/
def WellPlan.header (grid : GridName) (well block : Nat) (w : WellPlan) : WellHeader where
  name := w.name
  grid
  well
  wellhead := cellFromOne w.headI w.headJ w.headK
  connections := w.connections.length
  kind := WellKind.ofCode w.kind
  isOpen := w.isOpen
  segmentBlock := if w.segmented && w.hasSegments then some block else none

/-- A planned segment in some row of its block. -/
def SegmentPlan.segmentRow (row : Nat) (s : SegmentPlan) : SegmentRow where
  id := Segment.idOfRow row
  outletId := s.outlet
  branchId := s.branch
  reals :=
    { depth := s.depth, length := s.length, totalLength := s.totalLength, diameter := s.diameter }

/-- The inactive segment in a row that is not in use. -/
def SegmentRow.unused (row : Nat) : SegmentRow where
  id := Segment.idOfRow row
  outletId := wellheadOutlet
  branchId := inactiveBranch

/-- The segment in a row of the block of a planned well. -/
def WellPlan.segmentRow (w : WellPlan) (row : Nat) : SegmentRow :=
  match w.segments[row]? with
  | some s => s.segmentRow row
  | none => .unused row

/-- The numbers of a plan that record integers can hold, and reals that are finite. -/
structure WellPlan.InRange (w : WellPlan) : Prop where
  connections : w.connections.length < 2147483648
  segments : w.segments.length < 2147483648
  head : Int32.minValue < w.headI ∧ Int32.minValue < w.headJ ∧ Int32.minValue < w.headK
  cells : ∀ c ∈ w.connections,
    Int32.minValue < c.i ∧ Int32.minValue < c.j ∧ Int32.minValue < c.k
  finite : ∀ s ∈ w.segments, s.depth.isFinite = true ∧ s.length.isFinite = true ∧
    s.totalLength.isFinite = true ∧ s.diameter.isFinite = true

instance (w : WellPlan) : Decidable w.InRange :=
  decidable_of_iff (w.connections.length < 2147483648 ∧ w.segments.length < 2147483648 ∧
      (Int32.minValue < w.headI ∧ Int32.minValue < w.headJ ∧ Int32.minValue < w.headK) ∧
      (∀ c ∈ w.connections,
        Int32.minValue < c.i ∧ Int32.minValue < c.j ∧ Int32.minValue < c.k) ∧
      ∀ s ∈ w.segments, s.depth.isFinite = true ∧ s.length.isFinite = true ∧
        s.totalLength.isFinite = true ∧ s.diameter.isFinite = true)
    ⟨fun ⟨hconnections, hsegments, hhead, hcells, hfinite⟩ =>
      ⟨hconnections, hsegments, hhead, hcells, hfinite⟩,
      fun ⟨hconnections, hsegments, hhead, hcells, hfinite⟩ =>
      ⟨hconnections, hsegments, hhead, hcells, hfinite⟩⟩

theorem lt_flagWord {b : Bool} : (decide (0 < flagWord b)) = b := by
  cases b <;> decide

theorem cellFromOne_eq {i j k : Int32}
    (h : Int32.minValue < i ∧ Int32.minValue < j ∧ Int32.minValue < k) :
    (⟨fromOne i, fromOne j, fromOne k⟩ : Cell) = cellFromOne i j k := by
  rw [cellFromOne, fromOne_eq h.1, fromOne_eq h.2.1, fromOne_eq h.2.2]

namespace ReportPlan.GridPlan

variable {h : ReportHeader} {g : GridPlan} {w : WellPlan} {n : Nat}

/-- How many wells with segments come before a position. -/
def blocksBefore (g : GridPlan) (n : Nat) : Nat := (g.wells.take n).countP hasSegments

theorem wellName_eq_ok (hw : g.wells[n]? = some w) : (g.records h).wellName n = .ok w.name := by
  rw [GridRecords.wellName_eq_ok]
  show (g.wells.map (·.name))[n]? = some w.name
  rw [List.getElem?_map, hw]
  rfl

/-! ## Cutting out the rows -/

theorem wellRow_eq_ok (hsuits : h.Suits g.wells) (hfits : g.Fits h)
    (hw : g.wells[n]? = some w) :
    (g.records h).wellRow h n = .ok
      (WellPlan.row h.wellWidth (w, g.blocksBefore n)).toArray := by
  have hlt : n < g.wells.length := (List.getElem?_eq_some_iff.mp hw).1
  have hsize := lt_size_of_bytes (by omega) hfits.iwel
  have hrecord : (g.records h).iwel.toList =
      (WellPlan.numbered 0 g.wells).flatMap (WellPlan.row h.wellWidth) := toList_sheet
  have hlen : (g.records h).iwel.size = g.wells.length * h.wellWidth := by
    rw [← Array.length_toList, hrecord, Sheets.length_rows]
  have hnumbered := WellPlan.getElem?_numbered 0 hw
  rw [Nat.zero_add] at hnumbered
  have hrow : WellPlan.row h.wellWidth (w, g.blocksBefore n) <+:
      (g.records h).iwel.toList.drop (n * h.wellWidth) := by
    rw [hrecord]
    exact prefix_drop_flatMap (fun _ _ => WellPlan.length_row) hnumbered
  have hcut := rowOf_of_prefix .iwel hrow
    (by rw [WellPlan.length_row, hsuits.wellWidth]; omega) (by rw [hlen]; exact hsize)
  rw [WellPlan.length_row] at hcut
  unfold GridRecords.wellRow
  rw [wellStart?_of_lt hlt hsize, bind_eq_ok]
  exact ⟨w.name, wellName_eq_ok hw, hcut⟩

theorem connectionRow_eq_ok {i : Nat} (hsuits : h.Suits g.wells) (hfits : g.Fits h)
    (hw : g.wells[n]? = some w) (hi : i < h.maxConnections) :
    (g.records h).connectionRow h n i =
      .ok (rowWith 0 h.connectionWidth (w.iconRows[i]?.getD [])).toArray := by
  unfold GridRecords.connectionRow
  rw [bind_eq_ok]
  refine ⟨w.name, wellName_eq_ok hw, ?_⟩
  exact rowOf_block .icon toList_sheet (fun _ => hsuits.iconRows)
    (hsuits.connectionWidth ▸ Nat.succ_pos _) (lt_size_of_bytes (by omega) hfits.icon) hw hi

theorem connectionReals_eq_ok {i : Nat} (hsuits : h.Suits g.wells) (hfits : g.Fits h)
    (hw : g.wells[n]? = some w) (hi : i < h.maxConnections) :
    (g.records h).connectionReals h n i =
      .ok (some (rowWith 0 h.connectionRealWidth (w.sconRows[i]?.getD [])).toArray) := by
  unfold GridRecords.connectionReals
  rw [bind_eq_ok]
  refine ⟨w.name, wellName_eq_ok hw, ?_⟩
  have hcut : rowOf (Sheets.layout h g.wells []).scon .scon (h.connectionRealStart? n i)
      h.connectionRealWidth =
        .ok (rowWith 0 h.connectionRealWidth (w.sconRows[i]?.getD [])).toArray :=
    rowOf_block .scon toList_sheet (fun _ => hsuits.sconRows)
      (hsuits.connectionRealWidth ▸ Nat.succ_pos _) (lt_size_of_bytes (by omega) hfits.scon)
      hw hi
  show (do return some (← rowOf (Sheets.layout h g.wells []).scon .scon
    (h.connectionRealStart? n i) h.connectionRealWidth)) = _
  rw [hcut]
  rfl

end ReportPlan.GridPlan

/-! ## Decoding the rows -/

namespace WellPlan

variable {w : WellPlan} {width n : Nat}

theorem getElem?_row (hwidth : width = WellHeader.segmentBlockColumn + 1) {v : Nat × Int32}
    (hv : v ∈ w.ints) : (row width (w, n)).toArray[v.1]? = some v.2 := by
  subst hwidth
  have hmem := List.mem_map_of_mem (f := Prod.fst) hv
  rw [columns_ints] at hmem
  have hne : v.1 ≠ WellHeader.segmentBlockColumn := by
    revert hmem
    exact (by decide : ∀ column ∈ [0, 1, 2, 4, 6, 10], column ≠ 70) v.1
  rw [List.getElem?_toArray, row, getElem?_entered_of_not_mem,
    getElem?_rowWith (fits_ints w) hv]
  split
  · unfold announcement
    split
    · simpa using hne
    · simp
  · simp

/-- The announced block is read back. -/
theorem segmentBlockOf_row (hwidth : width = WellHeader.segmentBlockColumn + 1)
    (hn : n < 2147483648) :
    WellHeader.segmentBlockOf (row width (w, n)).toArray =
      if w.segmented && w.hasSegments then some n else none := by
  subst hwidth
  have hblank : (rowWith 0 (WellHeader.segmentBlockColumn + 1) w.ints)[
      WellHeader.segmentBlockColumn]? = some (0 : Int32) :=
    getElem?_rowWith_of_not_mem (by decide) (columns_ints w ▸ by decide)
  unfold WellHeader.segmentBlockOf
  rw [List.getElem?_toArray, row]
  by_cases hw : w.segmented && w.hasSegments
  · rw [if_pos hw]
    rw [Bool.and_eq_true] at hw
    have hannounced : (WellHeader.segmentBlockColumn, Int32.ofNat n + 1) ∈
        w.announcement n := by
      rw [announcement, if_pos hw.1]
      exact List.mem_singleton_self _
    have hfits : Fits (rowWith 0 (WellHeader.segmentBlockColumn + 1) w.ints).length
        (w.announcement n) := by
      rw [length_rowWith]
      exact fits_announcement w n
    rw [if_pos hw.2, getElem?_entered hfits hannounced]
    dsimp only
    rw [if_neg (succ_ne_zero_of_lt hn), fromOne_succ hn]
  · rw [if_neg hw]
    have hnone : (if w.hasSegments then w.announcement n else []) = [] := by
      unfold announcement
      simp only [Bool.and_eq_true, not_and] at hw
      split
      next hsegments =>
        rw [if_neg fun hsegmented => hw hsegmented hsegments]
      next => rfl
    dsimp only
    rw [hnone, entered_nil, hblank]
    rfl

end WellPlan

namespace ReportPlan.GridPlan

variable {h : ReportHeader} {g : GridPlan} {w : WellPlan} {n : Nat}

theorem decode_header (hsuits : h.Suits g.wells) (hfits : g.Fits h)
    (hcount : g.wells.length < 2147483648) (hw : g.wells[n]? = some w) (hrange : w.InRange) :
    WellHeader.decode h (g.records h) n =
      .ok (w.header g.grid n (g.blocksBefore n)) := by
  have hlt : n < g.wells.length := (List.getElem?_eq_some_iff.mp hw).1
  have hle : g.blocksBefore n ≤ (g.wells.take n).length := List.countP_le_length
  rw [List.length_take] at hle
  have hfield := fun v hv => WellPlan.getElem?_row (w := w)
    (n := g.blocksBefore n) (v := v) hsuits.wellWidth hv
  rw [WellHeader.decode_eq_ok]
  refine ⟨w.name, _, w.headI, w.headJ, w.headK, Int32.ofNat w.connections.length, w.kind,
    flagWord w.isOpen, wellName_eq_ok hw, wellRow_eq_ok hsuits hfits hw, ?_, ?_, ?_, ?_, ?_, ?_, ?_⟩
  · exact hfield (WellHeader.headIColumn, _) (by simp [WellPlan.ints])
  · exact hfield (WellHeader.headJColumn, _) (by simp [WellPlan.ints])
  · exact hfield (WellHeader.headKColumn, _) (by simp [WellPlan.ints])
  · exact hfield (WellHeader.connectionsColumn, Int32.ofNat w.connections.length)
      (by simp [WellPlan.ints])
  · exact hfield (WellHeader.kindColumn, _) (by simp [WellPlan.ints])
  · exact hfield (WellHeader.statusColumn, flagWord w.isOpen) (by simp [WellPlan.ints])
  · rw [WellPlan.segmentBlockOf_row hsuits.wellWidth (by omega), cellFromOne_eq hrange.head,
      toNat_toInt_ofNat hrange.connections, lt_flagWord]
    rfl

theorem decode_connection {i : Nat} {c : ConnectionPlan} {segmented : Bool}
    (hsuits : h.Suits g.wells) (hfits : g.Fits h) (hw : g.wells[n]? = some w)
    (hrange : w.InRange) (hc : w.connections[i]? = some c) :
    Connection.decode h (g.records h) n i segmented =
      .ok (c.connection g.grid segmented) := by
  have hmem : w ∈ g.wells := List.mem_of_getElem? hw
  have hlt : i < w.connections.length := (List.getElem?_eq_some_iff.mp hc).1
  have hmax := hsuits.connections w hmem
  have hints : w.iconRows[i]? = some (ConnectionPlan.ints i c) := by
    rw [WellPlan.iconRows, List.getElem?_mapIdx, hc]
    rfl
  have hreals : w.sconRows[i]? = some c.reals := by
    rw [WellPlan.sconRows, List.getElem?_map, hc]
    rfl
  have hrow := connectionRow_eq_ok hsuits hfits hw (hlt.trans_le hmax)
  have hreal := connectionReals_eq_ok hsuits hfits hw (hlt.trans_le hmax)
  rw [hints, Option.getD_some] at hrow
  rw [hreals, Option.getD_some] at hreal
  have hfield : ∀ v ∈ ConnectionPlan.ints i c,
      (rowWith 0 h.connectionWidth (ConnectionPlan.ints i c)).toArray[v.1]? = some v.2 :=
    fun _ => getElem?_toArray_rowWith ((hsuits.iconRows hmem).fits _ (List.mem_of_getElem? hints))
  have hfactor : (rowWith 0 h.connectionRealWidth c.reals).toArray[Connection.factorColumn]? =
      some c.factor :=
    getElem?_toArray_rowWith (v := (Connection.factorColumn, c.factor))
      ((hsuits.sconRows hmem).fits _ (List.mem_of_getElem? hreals)) (List.mem_singleton_self _)
  rw [Connection.decode_eq_ok]
  refine ⟨_, if segmented then some c.segment else none, _, c.i, c.j, c.k, flagWord c.isOpen,
    c.direction, hrow, ?_, hreal, ?_, ?_, ?_, ?_, ?_, ?_⟩
  · rw [Connection.segmentIdOf_eq_ok]
    cases segmented with
    | false => rfl
    | true => exact ⟨c.segment, hfield (Connection.segmentColumn, _)
        (by simp [ConnectionPlan.ints]), rfl⟩
  · exact hfield (Connection.iColumn, _) (by simp [ConnectionPlan.ints])
  · exact hfield (Connection.jColumn, _) (by simp [ConnectionPlan.ints])
  · exact hfield (Connection.kColumn, _) (by simp [ConnectionPlan.ints])
  · exact hfield (Connection.statusColumn, flagWord c.isOpen) (by simp [ConnectionPlan.ints])
  · exact hfield (Connection.directionColumn, _) (by simp [ConnectionPlan.ints])
  · rw [cellFromOne_eq (hrange.cells c (List.mem_of_getElem? hc)), lt_flagWord,
      Option.bind_some, hfactor]
    rfl

/-- All connections of a well are read back, in order. -/
theorem load_connections {block : Nat} {segmented : Bool} (hsuits : h.Suits g.wells)
    (hfits : g.Fits h) (hw : g.wells[n]? = some w) (hrange : w.InRange) :
    Connection.load h (g.records h) (w.header g.grid n block) segmented =
      .ok (w.connections.map (ConnectionPlan.connection g.grid segmented)) := by
  have hmax : min w.connections.length h.maxConnections = w.connections.length :=
    Nat.min_eq_left (hsuits.connections w (List.mem_of_getElem? hw))
  rw [Connection.load_eq_ok]
  show List.Forall₂ (fun i c => Connection.decode h (g.records h) n i segmented = .ok c)
    (List.range (min w.connections.length h.maxConnections)) _
  rw [hmax, List.forall₂_iff_get]
  refine ⟨by rw [List.length_range, List.length_map], fun i hi hi' => ?_⟩
  rw [List.length_range] at hi
  rw [List.get_eq_getElem, List.get_eq_getElem, List.getElem_range, List.getElem_map]
  exact decode_connection hsuits hfits hw hrange (List.getElem?_eq_getElem hi)

end ReportPlan.GridPlan

end Wellbore
