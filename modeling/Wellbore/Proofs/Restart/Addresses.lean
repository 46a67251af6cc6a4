import Wellbore.Proofs.Segment.Reading

/-!
# Rows stand where unbounded numbers put them

The sizes in a header come from a file, and an address is computed from them in steps that
must each fit 64 bits. A step can fail to fit only on the way to a row that no record reaches:
where a row has a width, every number on the way is at most the address that comes out, and a
record has no more values than 64 bits count. So a row is found exactly where exact arithmetic
puts it, and a row that is not found is reported by its last value, or by the last address of
all if it ends beyond that.

Rows of one record never share a value. This is mixed radix once more: the rows of a block come
before the next block, and the values of a row before the next row.
-/

namespace Wellbore

/-- Where row `row` of block `block` begins, whatever the size of the numbers. -/
def exactStart (block rowsPerBlock row width : Nat) : Nat := (block * rowsPerBlock + row) * width

/-- The answer when the `width` values from `first` on are to be cut out of a record. -/
structure Cuts {α : Type} (record : Array α) (keyword : Keyword) (first width : Nat)
    (answer : Except RecordError (Array α)) : Prop where
  found : (∃ row, answer = .ok row) ↔ first + width ≤ record.size
  values : ∀ row, answer = .ok row →
    row.size = width ∧ ∀ i < width, row[i]? = record[first + i]?
  short : record.size < first + width → answer = .error (.recordTooShort keyword
    (if first + width < UInt64.size then first + width - 1 else UInt64.size - 1) record.size)

/-- 64 bits count the values of every record that is there. -/
structure GridRecords.Counted (r : GridRecords) : Prop where
  iwel : r.iwel.size < UInt64.size
  icon : r.icon.size < UInt64.size
  scon : ∀ scon, r.scon = some scon → scon.size < UInt64.size
  iseg : ∀ iseg, r.iseg = some iseg → iseg.size < UInt64.size
  rseg : ∀ rseg, r.rseg = some rseg → rseg.size < UInt64.size

section
variable {α : Type} {record : Array α} {keyword : Keyword} {first width : Nat}
  {start : Option Nat}

/-! ## One row -/

/-- A start that is exact as long as the row ends within 64 bits cuts out the row. -/
theorem rowOf_eq_ok_iff {row : Array α} (hsize : record.size < UInt64.size)
    (hexact : ∀ s, start = some s → s = first)
    (hfits : first + width < UInt64.size → start = some first) :
    rowOf record keyword start width = .ok row ↔
      first + width ≤ record.size ∧ record.extract first (first + width) = row := by
  rw [rowOf_eq_ok]
  constructor
  · rintro ⟨s, hs, -, hle, heq⟩
    obtain rfl := hexact s hs
    exact ⟨hle, heq⟩
  · intro h
    exact ⟨first, hfits (Nat.lt_of_le_of_lt h.1 hsize), Nat.lt_of_le_of_lt h.1 hsize, h⟩

theorem cuts_rowOf (hsize : record.size < UInt64.size) (hexact : ∀ s, start = some s → s = first)
    (hfits : first + width < UInt64.size → start = some first) :
    Cuts record keyword first width (rowOf record keyword start width) := by
  have hrow : ∀ row, rowOf record keyword start width = .ok row ↔
      first + width ≤ record.size ∧ record.extract first (first + width) = row :=
    fun _ => rowOf_eq_ok_iff hsize hexact hfits
  refine ⟨⟨fun ⟨row, h⟩ => ((hrow row).mp h).1, fun h => ⟨_, (hrow _).mpr ⟨h, rfl⟩⟩⟩, ?_, ?_⟩
  · intro row h
    obtain ⟨hle, rfl⟩ := (hrow row).mp h
    refine ⟨by rw [Array.size_extract]; omega, fun i hi => ?_⟩
    rw [Array.getElem?_extract, if_pos (by omega)]
  · intro hlt
    unfold rowOf
    split
    next =>
      rw [if_neg fun h => nomatch hfits h]
      rfl
    next s =>
      obtain rfl := hexact s rfl
      by_cases hstop : s + width < UInt64.size
      · rw [address?_eq_some.mpr ⟨hstop, rfl⟩, if_pos hstop]
        exact if_neg (Nat.not_le_of_lt hlt)
      · have hnone : address? (s + width) = none := by
          rw [address?, Word.unsigned64?, if_neg hstop]
        rw [hnone, if_neg hstop]
        rfl

theorem eq_exactStart {block rowsPerBlock row s : Nat}
    (hs : rowStart? block rowsPerBlock row width = some s) :
    s = exactStart block rowsPerBlock row width := by
  obtain ⟨-, -, -, heq⟩ := rowStart?_eq_some.mp hs
  exact heq.symm

theorem rowStart?_eq_exactStart {block rowsPerBlock row : Nat} (hwidth : 0 < width)
    (hfits : exactStart block rowsPerBlock row width + width < UInt64.size) :
    rowStart? block rowsPerBlock row width = some (exactStart block rowsPerBlock row width) :=
  rowStart?_of_fits hwidth (Nat.lt_of_le_of_lt (Nat.le_add_right _ _) hfits)

theorem cuts_rowStart? {block rowsPerBlock row : Nat} (hwidth : 0 < width)
    (hsize : record.size < UInt64.size) :
    Cuts record keyword (exactStart block rowsPerBlock row width) width
      (rowOf record keyword (rowStart? block rowsPerBlock row width) width) :=
  cuts_rowOf hsize (fun _ => eq_exactStart) (rowStart?_eq_exactStart hwidth)

end

/-! ## Two rows -/

theorem mul_add_le_mul {m n : Nat} (size : Nat) (hlt : m < n) : m * size + size ≤ n * size := by
  rw [← Nat.succ_mul]
  exact Nat.mul_le_mul_right size hlt

/-- Of two rows of one layout, one ends before the other begins. -/
theorem exactStart_apart {block block' count row row' : Nat} (width : Nat) (hrow : row < count)
    (hrow' : row' < count) (hne : (block, row) ≠ (block', row')) :
    exactStart block count row width + width ≤ exactStart block' count row' width ∨
      exactStart block' count row' width + width ≤ exactStart block count row width := by
  have hnumber : block * count + row ≠ block' * count + row' := by
    rcases Nat.lt_trichotomy block block' with hlt | rfl | hlt
    · have hblock := mul_add_le_mul count hlt
      omega
    · intro heq
      exact hne (congrArg _ (Nat.add_left_cancel heq))
    · have hblock := mul_add_le_mul count hlt
      omega
  rcases Nat.lt_or_gt_of_ne hnumber with hlt | hlt
  · exact .inl (mul_add_le_mul width hlt)
  · exact .inr (mul_add_le_mul width hlt)

/-! ## The records of a grid -/

/-- Every row is looked up where exact arithmetic puts it. -/
structure RowsExact (h : ReportHeader) (r : GridRecords) : Prop where
  well : 0 < h.wellWidth → ∀ n < r.wells,
    Cuts r.iwel .iwel (n * h.wellWidth) h.wellWidth (r.wellRow h n)
  connection : 0 < h.connectionWidth → ∀ n < r.wells, ∀ row,
    Cuts r.icon .icon (exactStart n h.maxConnections row h.connectionWidth) h.connectionWidth
      (r.connectionRow h n row)
  connectionReals : 0 < h.connectionRealWidth → ∀ scon, r.scon = some scon →
    ∀ n < r.wells, ∀ row, ∃ answer, r.connectionReals h n row = answer.map some ∧
      Cuts scon .scon (exactStart n h.maxConnections row h.connectionRealWidth)
        h.connectionRealWidth answer
  segment : 0 < h.segmentWidth → ∀ iseg, r.iseg = some iseg → ∀ well block row,
    Cuts iseg .iseg (exactStart block h.maxSegments row h.segmentWidth) h.segmentWidth
      (r.segmentRow h well block row)
  segmentReals : 0 < h.segmentRealWidth → ∀ rseg, r.rseg = some rseg → ∀ well block row,
    Cuts rseg .rseg (exactStart block h.maxSegments row h.segmentRealWidth) h.segmentRealWidth
      (r.segmentReals h well block row) ∧
    ∀ held, (RealsReader.read ⟨h, r, held⟩ well block row).1 =
      r.segmentReals h well block row >>= SegmentReals.ofRow
  wellsApart : ∀ n n', n ≠ n' → n * h.wellWidth + h.wellWidth ≤ n' * h.wellWidth ∨
    n' * h.wellWidth + h.wellWidth ≤ n * h.wellWidth
  rowsApart : ∀ count ∈ [h.maxConnections, h.maxSegments], ∀ width block block' row row',
    row < count → row' < count → (block, row) ≠ (block', row') →
    exactStart block count row width + width ≤ exactStart block' count row' width ∨
      exactStart block' count row' width + width ≤ exactStart block count row width

namespace GridRecords

variable {h : ReportHeader} {r : GridRecords}

theorem wellName_of_lt {well : Nat} (hwell : well < r.wells) : ∃ name, r.wellName well = .ok name :=
  ⟨_, wellName_eq_ok.mpr (List.getElem?_eq_getElem hwell)⟩

/-- No step of an address wraps or is cut off, and no two rows share a value. -/
theorem rowsExact (hr : r.Counted) : RowsExact h r where
  well hwidth n hn := by
    obtain ⟨name, hname⟩ := wellName_of_lt hn
    have hcuts : Cuts r.iwel .iwel (n * h.wellWidth) h.wellWidth
        (rowOf r.iwel .iwel (h.wellStart? n) h.wellWidth) := by
      refine cuts_rowOf hr.iwel (fun s hs => (address?_eq_some.mp hs).2.symm) fun hfits => ?_
      exact address?_eq_some.mpr ⟨Nat.lt_of_le_of_lt (Nat.le_add_right _ _) hfits, rfl⟩
    rw [wellRow, hname]
    exact hcuts
  connection hwidth n hn row := by
    obtain ⟨name, hname⟩ := wellName_of_lt hn
    rw [connectionRow, hname]
    exact cuts_rowStart? hwidth hr.icon
  connectionReals hwidth scon hscon n hn row := by
    obtain ⟨name, hname⟩ := wellName_of_lt hn
    refine ⟨_, ?_, cuts_rowStart? hwidth (hr.scon scon hscon)⟩
    rw [connectionReals, hname, hscon]
    rfl
  segment hwidth iseg hiseg well block row := by
    rw [segmentRow, segmentRecord, hiseg]
    exact cuts_rowStart? hwidth (hr.iseg iseg hiseg)
  segmentReals hwidth rseg hrseg well block row := by
    refine ⟨?_, fun held => ?_⟩
    · rw [segmentReals, segmentRealRecord, hrseg]
      exact cuts_rowStart? hwidth (hr.rseg rseg hrseg)
    · obtain ⟨k, hread⟩ := RealsReader.read_eq ⟨h, r, held⟩ well block row
      rw [hread]
  wellsApart n n' hne := by
    rcases Nat.lt_or_gt_of_ne hne with hlt | hlt
    · exact .inl (mul_add_le_mul _ hlt)
    · exact .inr (mul_add_le_mul _ hlt)
  rowsApart count _ width _ _ _ _ hrow hrow' hne := exactStart_apart width hrow hrow' hne

/-- Sizes that no record can have. -/
def hugeBlocks : ReportHeader where
  reportStep := 1
  simTime := ⟨0, 0⟩
  wellWidth := 2
  maxSegments := UInt64.size / 4
  segmentWidth := 4
  segmentRealWidth := UInt64.size / 2
  maxConnections := UInt64.size - 1
  connectionWidth := 1
  connectionRealWidth := 1

def twoRows : GridRecords where
  grid := .global
  wellNames := ["P", "Q"]
  iwel := #[1, 2, 3]
  icon := #[7]
  iseg := some #[1, 0, 1, 1, 2, 1, 2, 1]
  rseg := some #[0.5]

/-- The last row whose end fits is missed at its last value. The next one ends just past the last
address, and in another block not even the first step fits. -/
theorem rowsExact_hugeBlocks : twoRows.Counted ∧ RowsExact hugeBlocks twoRows ∧
    twoRows.segmentRow hugeBlocks 0 0 1 = .ok #[2, 1, 2, 1] ∧
    twoRows.segmentRow hugeBlocks 0 0 (UInt64.size / 4 - 2) =
      .error (.recordTooShort .iseg (UInt64.size - 5) 8) ∧
    twoRows.segmentRow hugeBlocks 0 0 (UInt64.size / 4 - 1) =
      .error (.recordTooShort .iseg (UInt64.size - 1) 8) ∧
    twoRows.segmentRow hugeBlocks 0 4 0 = .error (.recordTooShort .iseg (UInt64.size - 1) 8) ∧
    twoRows.wellRow hugeBlocks 1 = .error (.recordTooShort .iwel 3 3) := by
  have hcounted : twoRows.Counted := by
    constructor
    case iwel => decide
    case icon => decide
    case scon => exact fun _ h => nomatch h
    case iseg => intro iseg h; cases h; decide
    case rseg => intro rseg h; cases h; decide
  have hexact := rowsExact (h := hugeBlocks) hcounted
  have hrow := hexact.segment (by decide) _ rfl
  refine ⟨hcounted, hexact, by decide +kernel, ?_, ?_, ?_, ?_⟩
  · exact ((hrow 0 0 (UInt64.size / 4 - 2)).short (by decide +kernel)).trans (by decide +kernel)
  · exact ((hrow 0 0 (UInt64.size / 4 - 1)).short (by decide +kernel)).trans (by decide +kernel)
  · exact ((hrow 0 4 0).short (by decide +kernel)).trans (by decide +kernel)
  · exact ((hexact.well (by decide) 1 (by decide)).short (by decide)).trans (by decide +kernel)

end GridRecords

end Wellbore
