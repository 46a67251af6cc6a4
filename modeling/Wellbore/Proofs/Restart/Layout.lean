import Wellbore.Proofs.Restart.Blocks

/-!
# Where a plan puts its wells

A well has one row in the well record and a block in each of the others, except
that a well without segments has none in the segment records. So its place in the
segment records is the number of wells with segments before it, and that number
is what its row announces.
-/

namespace Wellbore

/-! ## The pieces of a plan -/

namespace WellPlan

/-- The rows of a well in each of the block records. -/
def iconRows (w : WellPlan) : List (List (Nat × Int32)) :=
  w.connections.mapIdx ConnectionPlan.ints
def sconRows (w : WellPlan) : List (List (Nat × Float)) :=
  w.connections.map ConnectionPlan.reals
def isegRows (w : WellPlan) : List (List (Nat × Int32)) := w.segments.map SegmentPlan.ints
def rsegRows (w : WellPlan) : List (List (Nat × Float)) := w.segments.map SegmentPlan.reals

theorem columns_ints (w : WellPlan) : w.ints.map Prod.fst = [0, 1, 2, 4, 6, 10] := rfl

theorem fits_ints (w : WellPlan) : Fits (WellHeader.segmentBlockColumn + 1) w.ints :=
  .of_columns _ (columns_ints w) (by decide) (by decide)

theorem fits_announcement (w : WellPlan) (block : Nat) :
    Fits (WellHeader.segmentBlockColumn + 1) (w.announcement block) := by
  unfold announcement
  split
  · exact .of_columns [70] rfl (by decide) (by decide)
  · exact .of_columns [] rfl (by decide) (by decide)

theorem fits_iconRows (w : WellPlan) :
    ∀ values ∈ w.iconRows, Fits (Connection.segmentColumn + 1) values := by
  intro values hvalues
  obtain ⟨n, _, rfl⟩ := List.mem_mapIdx.mp hvalues
  exact .of_columns [0, 1, 2, 3, 5, 13, 14] rfl (by decide) (by decide)

theorem fits_sconRows (w : WellPlan) :
    ∀ values ∈ w.sconRows, Fits (Connection.factorColumn + 1) values := by
  intro values hvalues
  obtain ⟨c, -, rfl⟩ := List.mem_map.mp hvalues
  exact .of_columns [0] rfl (by decide) (by decide)

theorem fits_isegRows (w : WellPlan) :
    ∀ values ∈ w.isegRows, Fits (Segment.branchColumn + 1) values := by
  intro values hvalues
  obtain ⟨s, -, rfl⟩ := List.mem_map.mp hvalues
  exact .of_columns [1, 3] rfl (by decide) (by decide)

theorem fits_rsegRows (w : WellPlan) :
    ∀ values ∈ w.rsegRows, Fits (SegmentReals.depthColumn + 1) values := by
  intro values hvalues
  obtain ⟨s, -, rfl⟩ := List.mem_map.mp hvalues
  exact .of_columns [7, 0, 6, 2] rfl (by decide) (by decide)

/-- The row of a well that comes after a number of wells with segments. -/
def row (width : Nat) (e : WellPlan × Nat) : List Int32 :=
  entered (rowWith 0 width e.1.ints) (if e.1.hasSegments then e.1.announcement e.2 else [])

theorem length_row {width : Nat} {e : WellPlan × Nat} : (row width e).length = width := by
  rw [row, length_entered, length_rowWith]

/-- Wells with the number of wells with segments before each; `block` come before all. -/
def numbered : (block : Nat) → List WellPlan → List (WellPlan × Nat)
  | _, [] => []
  | block, w :: rest => (w, block) :: numbered (block + [w].countP hasSegments) rest

theorem numbered_append {ws : List WellPlan} {w : WellPlan} {block : Nat} :
    numbered block (ws ++ [w]) =
      numbered block ws ++ [(w, block + ws.countP hasSegments)] := by
  induction ws generalizing block with
  | nil => rfl
  | cons v ws ih =>
      rw [List.cons_append, numbered, ih, Nat.add_assoc, ← List.countP_append]
      rfl

theorem length_numbered {ws : List WellPlan} {block : Nat} :
    (numbered block ws).length = ws.length := by
  induction ws generalizing block with
  | nil => rfl
  | cons v ws ih => rw [numbered, List.length_cons, ih, List.length_cons]

theorem getElem?_numbered {ws : List WellPlan} {w : WellPlan} {n : Nat} (block : Nat)
    (hw : ws[n]? = some w) :
    (numbered block ws)[n]? = some (w, block + (ws.take n).countP hasSegments) := by
  induction ws generalizing n block with
  | nil => simp at hw
  | cons v ws ih =>
      cases n with
      | zero =>
          rw [List.getElem?_cons_zero, Option.some.injEq] at hw
          rw [hw]
          rfl
      | succ n =>
          rw [List.getElem?_cons_succ] at hw
          rw [numbered, List.getElem?_cons_succ, ih _ hw, List.take_succ_cons, Nat.add_assoc,
            ← List.countP_append]
          rfl

/-- The place of a well among those with segments. -/
theorem getElem?_filter_hasSegments {ws : List WellPlan} {w : WellPlan} {n : Nat}
    (hw : ws[n]? = some w) (hsegments : w.hasSegments = true) :
    (ws.filter hasSegments)[(ws.take n).countP hasSegments]? = some w := by
  induction ws generalizing n with
  | nil => simp at hw
  | cons v ws ih =>
      cases n with
      | zero =>
          rw [List.getElem?_cons_zero, Option.some.injEq] at hw
          rw [hw, List.filter_cons_of_pos hsegments]
          rfl
      | succ n =>
          rw [List.getElem?_cons_succ] at hw
          rw [List.take_succ_cons, List.countP_cons, List.filter_cons]
          split
          next => exact ih hw
          next => exact ih hw

end WellPlan

/-! ## Room -/

/-- Rows that a block of `count` rows can hold, each as wide as `width` at most. -/
structure RowsFit {α : Type} (width count : Nat) (rows : List (List (Nat × α))) : Prop where
  length_le : rows.length ≤ count
  fits : ∀ values ∈ rows, Fits width values

/-- The widths and block sizes of a header suit some wells. -/
structure ReportHeader.Suits (h : ReportHeader) (wells : List WellPlan) : Prop where
  wellWidth : h.wellWidth = WellHeader.segmentBlockColumn + 1
  segmentWidth : h.segmentWidth = Segment.branchColumn + 1
  segmentRealWidth : h.segmentRealWidth = SegmentReals.depthColumn + 1
  connectionWidth : h.connectionWidth = Connection.segmentColumn + 1
  connectionRealWidth : h.connectionRealWidth = Connection.factorColumn + 1
  connections : ∀ w ∈ wells, w.connections.length ≤ h.maxConnections
  segments : ∀ w ∈ wells, w.segments.length ≤ h.maxSegments

namespace ReportHeader.Suits

variable {h : ReportHeader} {wells : List WellPlan} {w : WellPlan}

theorem iconRows (hsuits : h.Suits wells) (hw : w ∈ wells) :
    RowsFit h.connectionWidth h.maxConnections w.iconRows where
  length_le := by
    rw [WellPlan.iconRows, List.length_mapIdx]
    exact hsuits.connections w hw
  fits := hsuits.connectionWidth ▸ WellPlan.fits_iconRows w

theorem sconRows (hsuits : h.Suits wells) (hw : w ∈ wells) :
    RowsFit h.connectionRealWidth h.maxConnections w.sconRows where
  length_le := by
    rw [WellPlan.sconRows, List.length_map]
    exact hsuits.connections w hw
  fits := hsuits.connectionRealWidth ▸ WellPlan.fits_sconRows w

theorem isegRows (hsuits : h.Suits wells) (hw : w ∈ wells) :
    RowsFit h.segmentWidth h.maxSegments w.isegRows where
  length_le := by
    rw [WellPlan.isegRows, List.length_map]
    exact hsuits.segments w hw
  fits := hsuits.segmentWidth ▸ WellPlan.fits_isegRows w

theorem rsegRows (hsuits : h.Suits wells) (hw : w ∈ wells) :
    RowsFit h.segmentRealWidth h.maxSegments w.rsegRows where
  length_le := by
    rw [WellPlan.rsegRows, List.length_map]
    exact hsuits.segments w hw
  fits := hsuits.segmentRealWidth ▸ WellPlan.fits_rsegRows w

end ReportHeader.Suits

/-- Memory can hold the records of so many wells. -/
structure ReportHeader.Roomy (h : ReportHeader) (wells segmented : Nat) : Prop where
  iwel : wells * h.wellWidth * 4 ≤ mostBytes
  icon : wells * h.maxConnections * h.connectionWidth * 4 ≤ mostBytes
  scon : wells * h.maxConnections * h.connectionRealWidth * 8 ≤ mostBytes
  iseg : segmented * h.maxSegments * h.segmentWidth * 4 ≤ mostBytes
  rseg : segmented * h.maxSegments * h.segmentRealWidth * 8 ≤ mostBytes

/-- There is room whenever no count exceeds 268435456. -/
theorem ReportHeader.Suits.roomy {h : ReportHeader} {wells : List WellPlan}
    (hsuits : h.Suits wells) (hwells : wells.length ≤ 268435456)
    (hconnections : h.maxConnections ≤ 268435456) (hsegments : h.maxSegments ≤ 268435456) :
    h.Roomy wells.length (wells.countP WellPlan.hasSegments) := by
  have hmost : mostBytes = 9223372036854775807 := by decide
  have hsegmented : wells.countP WellPlan.hasSegments ≤ 268435456 :=
    List.countP_le_length.trans hwells
  have hicon : wells.length * h.maxConnections ≤ 268435456 * 268435456 :=
    Nat.mul_le_mul hwells hconnections
  have hiseg : wells.countP WellPlan.hasSegments * h.maxSegments ≤ 268435456 * 268435456 :=
    Nat.mul_le_mul hsegmented hsegments
  constructor
  case iwel => rw [hsuits.wellWidth, hmost, WellHeader.segmentBlockColumn]; omega
  case icon => rw [hsuits.connectionWidth, hmost, Connection.segmentColumn]; omega
  case scon => rw [hsuits.connectionRealWidth, hmost, Connection.factorColumn]; omega
  case iseg => rw [hsuits.segmentWidth, hmost, Segment.branchColumn]; omega
  case rseg => rw [hsuits.segmentRealWidth, hmost, SegmentReals.depthColumn]; omega

theorem blankRecord?_eq_some {α : Type} {value : α} {bytes count : Nat} {record : Array α} :
    blankRecord? value bytes count = some record ↔
      count * bytes ≤ mostBytes ∧ record = Array.replicate count value := by
  unfold blankRecord?
  split
  next hle => simp [hle, eq_comm]
  next hle => simp [hle]

theorem lt_size_of_bytes {n bytes : Nat} (hpos : 0 < bytes) (h : n * bytes ≤ mostBytes) :
    n < UInt64.size := by
  have hle : n ≤ n * bytes := Nat.le_mul_of_pos_right n hpos
  have hmost : mostBytes < UInt64.size := by decide
  omega

/-- The address of a row within its record. -/
theorem rowStart?_of_lt {wells block count row width : Nat} (hblock : block < wells)
    (hrow : row < count) (hwidth : 0 < width) (hsize : wells * count * width < UInt64.size) :
    rowStart? block count row width = some ((block * count + row) * width) := by
  have hnext : (block + 1) * count ≤ wells * count := Nat.mul_le_mul_right _ hblock
  rw [Nat.succ_mul] at hnext
  have hle : (block * count + row) * width ≤ wells * count * width :=
    Nat.mul_le_mul_right _ (by omega)
  exact rowStart?_of_fits hwidth (Nat.lt_of_le_of_lt hle hsize)

theorem wellStart?_of_lt {h : ReportHeader} {wells well : Nat} (hwell : well < wells)
    (hsize : wells * h.wellWidth < UInt64.size) :
    h.wellStart? well = some (well * h.wellWidth) := by
  have hle : well * h.wellWidth ≤ wells * h.wellWidth := Nat.mul_le_mul_right _ hwell.le
  exact address?_eq_some.mpr ⟨by omega, rfl⟩

/-! ## Blocks at their addresses -/

section
variable {α β : Type} {blank : α} {width count total : Nat}
  {rowsOf : β → List (List (Nat × α))} {b : β}

/-- Writing a block at its addresses adds it to the blocks that are done. -/
theorem writeRows?_block {done : List β} {left : Nat}
    (hdone : ∀ c ∈ done, RowsFit width count (rowsOf c)) (hb : RowsFit width count (rowsOf b))
    (hwidth : 0 < width) (hlt : done.length < total)
    (hsize : total * count * width < UInt64.size) :
    writeRows? (fun i => rowStart? done.length count i width) 0 (rowsOf b)
        (sheet blank (count * width) (fun c => blockOf blank width count (rowsOf c)) done
          (left + 1)) =
      some (sheet blank (count * width) (fun c => blockOf blank width count (rowsOf c))
        (done ++ [b]) left) :=
  writeRows?_sheet (fun c hc => (hdone c hc).length_le) hb.length_le
    (fun values hvalues => (hb.fits values hvalues).lt)
    fun _ hi => rowStart?_of_lt hlt hi hwidth hsize

/-- A row of a block is cut out where it was written. -/
theorem rowOf_block {l : List β} {record : Array α} {n i : Nat} (keyword : Keyword)
    (hrecord : record.toList = l.flatMap fun b => blockOf blank width count (rowsOf b))
    (hrows : ∀ b ∈ l, RowsFit width count (rowsOf b)) (hwidth : 0 < width)
    (hsize : l.length * count * width < UInt64.size) (hb : l[n]? = some b) (hi : i < count) :
    rowOf record keyword (rowStart? n count i width) width =
      .ok (rowWith blank width ((rowsOf b)[i]?.getD [])).toArray := by
  have hlt : n < l.length := (List.getElem?_eq_some_iff.mp hb).1
  have hlength : ∀ b ∈ l, (rowsOf b).length ≤ count := fun b hb => (hrows b hb).length_le
  have hlen : record.size = l.length * count * width := by
    rw [← Array.length_toList, hrecord,
      length_flatMap_of_length fun b hb => length_blockOf (hlength b hb), Nat.mul_assoc]
  have hrow : rowWith blank width ((rowsOf b)[i]?.getD []) <+:
      record.toList.drop ((n * count + i) * width) := by
    rw [hrecord]
    exact row_prefix hlength hb hi
  have hcut := rowOf_of_prefix keyword hrow (by rw [length_rowWith]; exact hwidth)
    (by rw [hlen]; exact hsize)
  rw [length_rowWith] at hcut
  rw [rowStart?_of_lt hlt hi hwidth hsize]
  exact hcut

end

end Wellbore
