import Wellbore.Proofs.Restart.Addresses

/-!
# A table loads if and only if its block is complete

The sizes in a header promise a block of rows that the records need not have. What is asked of the
records here is stated in unbounded numbers and row by row: `RecordedAt` says that both records
reach far enough for a row, that the row has the columns that are read, and which segment they
make. Rows without any width have no columns, so they are never complete.

`load_eq_mapM` takes the reader and the table out of the loop. What is left is a list of rows that
are read each on its own: either all of them can be read, or the first that cannot gives its error.
-/

namespace Wellbore

/-! ## Complete rows -/

section
variable {α : Type} {record : Array α} {keyword : Keyword} {block rowsPerBlock row width : Nat}

/-- The values of a row, cut out where exact arithmetic puts them. -/
def exactRow (record : Array α) (block rowsPerBlock row width : Nat) : Array α :=
  record.extract (exactStart block rowsPerBlock row width)
    (exactStart block rowsPerBlock row width + width)

theorem rowOf_rowStart?_eq_ok {cut : Array α} (hwidth : 0 < width)
    (hsize : record.size < UInt64.size) :
    rowOf record keyword (rowStart? block rowsPerBlock row width) width = .ok cut ↔
      exactStart block rowsPerBlock row width + width ≤ record.size ∧
        exactRow record block rowsPerBlock row width = cut :=
  rowOf_eq_ok_iff hsize (fun _ => eq_exactStart) (rowStart?_eq_exactStart hwidth)

theorem size_pos_of_column {cut : Array α} {column : Nat} {value : α}
    (hvalue : cut[column]? = some value) : 0 < cut.size :=
  Nat.zero_lt_of_lt (Array.getElem?_eq_some_iff.mp hvalue).1

/-- A row that must have a column has a width, and so it is where exact numbers put it. -/
theorem exists_row_iff {P : Array α → Prop} (hP : ∀ cut, P cut → 0 < cut.size)
    (hsize : record.size < UInt64.size) :
    (∃ cut, rowOf record keyword (rowStart? block rowsPerBlock row width) width = .ok cut ∧
        P cut) ↔
      exactStart block rowsPerBlock row width + width ≤ record.size ∧
        P (exactRow record block rowsPerBlock row width) := by
  rcases Nat.eq_zero_or_pos width with rfl | hwidth
  · have hempty : ∀ s, ¬ P (record.extract s (s + 0)) := fun s hp => by
      have hpos := hP _ hp
      rw [Array.size_extract] at hpos
      omega
    refine ⟨fun ⟨cut, hcut, hp⟩ => ?_, fun ⟨_, hp⟩ => (hempty _ hp).elim⟩
    obtain ⟨s, -, -, -, rfl⟩ := rowOf_eq_ok.mp hcut
    exact (hempty s hp).elim
  · simp only [rowOf_rowStart?_eq_ok hwidth hsize]
    grind

end

namespace Segment

variable {h : ReportHeader} {r : GridRecords} {well block row : Nat} {s : SegmentRow}

/-- The row of integers lies inside the record and has both columns that are read. -/
structure LinksAt (h : ReportHeader) (iseg : Array Int32) (block row : Nat)
    (outlet branch : Int32) : Prop where
  inside : exactStart block h.maxSegments row h.segmentWidth + h.segmentWidth ≤ iseg.size
  outlet : (exactRow iseg block h.maxSegments row h.segmentWidth)[outletColumn]? = some outlet
  branch : (exactRow iseg block h.maxSegments row h.segmentWidth)[branchColumn]? = some branch

/-- The row of reals lies inside the record and has all columns, with finite values in them. -/
structure RealsAt (h : ReportHeader) (rseg : Array Float) (block row : Nat)
    (reals : SegmentReals) : Prop where
  inside : exactStart block h.maxSegments row h.segmentRealWidth + h.segmentRealWidth ≤ rseg.size
  values : reals.StandIn (exactRow rseg block h.maxSegments row h.segmentRealWidth)

/-- The records hold a segment in a row of a block; its number counts the rows from one. -/
structure RecordedAt (h : ReportHeader) (r : GridRecords) (block row : Nat)
    (s : SegmentRow) : Prop where
  id : s.id.toInt = row + 1
  links : ∃ iseg, r.iseg = some iseg ∧ LinksAt h iseg block row s.outletId s.branchId
  reals : ∃ rseg, r.rseg = some rseg ∧ RealsAt h rseg block row s.reals

theorem linksOfRow_eq_ok_iff (hr : r.Counted) {outlet branch : Int32} :
    linksOfRow h r well block row = .ok (outlet, branch) ↔
      ∃ iseg, r.iseg = some iseg ∧ LinksAt h iseg block row outlet branch := by
  rw [linksOfRow_eq_ok, GridRecords.segmentRow, GridRecords.segmentRecord]
  cases hiseg : r.iseg with
  | none =>
      constructor
      · rintro ⟨ints, hints, -⟩
        cases hints
      · rintro ⟨iseg, hnone, -⟩
        cases hnone
  | some iseg =>
      refine (exists_row_iff (fun _ hp => size_pos_of_column hp.1) (hr.iseg iseg hiseg)).trans ?_
      constructor
      · rintro ⟨hinside, houtlet, hbranch⟩
        exact ⟨iseg, rfl, hinside, houtlet, hbranch⟩
      · rintro ⟨iseg', hsame, hinside, houtlet, hbranch⟩
        cases hsame
        exact ⟨hinside, houtlet, hbranch⟩

theorem standIn_iff (hr : r.Counted) {reals : SegmentReals} :
    (∃ values, r.segmentReals h well block row = .ok values ∧ reals.StandIn values) ↔
      ∃ rseg, r.rseg = some rseg ∧ RealsAt h rseg block row reals := by
  rw [GridRecords.segmentReals, GridRecords.segmentRealRecord]
  cases hrseg : r.rseg with
  | none =>
      constructor
      · rintro ⟨values, hvalues, -⟩
        cases hvalues
      · rintro ⟨rseg, hnone, -⟩
        cases hnone
  | some rseg =>
      refine (exists_row_iff (fun _ hp => size_pos_of_column hp.depth.1)
        (hr.rseg rseg hrseg)).trans ?_
      constructor
      · rintro ⟨hinside, hvalues⟩
        exact ⟨rseg, rfl, hinside, hvalues⟩
      · rintro ⟨rseg', hsame, hinside, hvalues⟩
        cases hsame
        exact ⟨hinside, hvalues⟩

theorem toInt_idOfRow (hrow : row + 1 < 2147483648) : (idOfRow row).toInt = row + 1 := by
  have hone : (1 : Int32).toInt = 1 := rfl
  rw [idOfRow, Int32.toInt_add, Int32.toInt_ofNat_of_lt (by omega), hone,
    Int.bmod_eq_of_le (by omega) (by omega)]

/-- A row reads as a segment if and only if the records hold that segment. -/
theorem reads_iff_recordedAt (hr : r.Counted) (hrow : row + 1 < 2147483648) :
    Reads h r well block row s ↔ RecordedAt h r block row s := by
  have hid : s.id = idOfRow row ↔ s.id.toInt = row + 1 := by
    rw [← toInt_idOfRow hrow, Int32.toInt_inj]
  constructor
  · intro ⟨heq, hlinks, hreals⟩
    exact ⟨hid.mp heq, (linksOfRow_eq_ok_iff hr).mp hlinks, (standIn_iff hr).mp hreals⟩
  · intro ⟨heq, hlinks, hreals⟩
    exact ⟨hid.mpr heq, (linksOfRow_eq_ok_iff hr).mpr hlinks, (standIn_iff hr).mpr hreals⟩

/-- Why a row of a block cannot be read: the integers are looked at first, and the reals only
where these are complete. -/
inductive FailsWith (h : ReportHeader) (r : GridRecords) (well block row : Nat)
    (cause : RecordError) : Prop
  | links
      (hlinks : ¬ ∃ iseg, r.iseg = some iseg ∧ ∃ outlet branch,
        LinksAt h iseg block row outlet branch)
      (hcause : linksOfRow h r well block row = .error cause)
  | reals
      (hlinks : ∃ iseg, r.iseg = some iseg ∧ ∃ outlet branch,
        LinksAt h iseg block row outlet branch)
      (hreals : ¬ ∃ rseg, r.rseg = some rseg ∧ ∃ reals, RealsAt h rseg block row reals)
      (hcause : ∀ held, (RealsReader.read ⟨h, r, held⟩ well block row).1 = .error cause)

theorem FailsWith.not_recordedAt {cause : RecordError}
    (hcause : FailsWith h r well block row cause) : ¬ RecordedAt h r block row s := by
  intro ⟨_, ⟨iseg, hiseg, hlinksAt⟩, ⟨rseg, hrseg, hrealsAt⟩⟩
  cases hcause with
  | links hlinks _ => exact hlinks ⟨iseg, hiseg, _, _, hlinksAt⟩
  | reals _ hreals _ => exact hreals ⟨rseg, hrseg, _, hrealsAt⟩

theorem failsWith_of_ofRecords (hr : r.Counted) {cause : RecordError}
    (hcause : ofRecords h r well block row = .error cause) :
    FailsWith h r well block row cause := by
  rw [ofRecords, bind_eq_error] at hcause
  rcases hcause with hlinks | ⟨links, hlinks, hcause⟩
  · refine .links ?_ hlinks
    rintro ⟨iseg, hiseg, outlet, branch, hat⟩
    rw [(linksOfRow_eq_ok_iff hr).mpr ⟨iseg, hiseg, hat⟩] at hlinks
    cases hlinks
  · obtain ⟨iseg, hiseg, hat⟩ := (linksOfRow_eq_ok_iff hr).mp hlinks
    obtain hreals | ⟨_, -, hpure⟩ := bind_eq_error.mp hcause
    · refine .reals ⟨iseg, hiseg, _, _, hat⟩ ?_ ?_
      · rintro ⟨rseg, hrseg, reals, hat⟩
        obtain ⟨values, hvalues, hstand⟩ := (standIn_iff hr).mpr ⟨rseg, hrseg, hat⟩
        rw [bind_eq_ok.mpr ⟨values, hvalues, SegmentReals.ofRow_eq_ok.mpr hstand⟩] at hreals
        cases hreals
      · intro held
        obtain ⟨k, hread⟩ := RealsReader.read_eq ⟨h, r, held⟩ well block row
        rw [hread]
        exact hreals
    · cases hpure

end Segment

/-! ## Tables -/

namespace SegmentTable

open Segment (RecordedAt FailsWith ofRecords ofRecords_eq_ok reads_iff_recordedAt
  failsWith_of_ofRecords)

variable {h : ReportHeader} {r : GridRecords} {well block : Nat} {row : Array Int32}
  {w : WellHeader} {held : SegmentReals}
  {answer : Except TopologyError (Option SegmentTable)}

/-- What loading the table of a segmented well comes to: the rows of its block make the table, and
the first one that cannot be read is what loading fails with. -/
structure LoadsBlock (h : ReportHeader) (r : GridRecords) (well block : Nat)
    (answer : Except TopologyError (Option SegmentTable)) : Prop where
  accepted : (∃ t, answer = .ok (some t)) ↔ (∃ iseg, r.iseg = some iseg) ∧
    ∀ row < h.maxSegments, ∃ s, RecordedAt h r block row s
  table : ∀ t, answer = .ok (some t) → t.size = h.maxSegments ∧
    ∀ row < h.maxSegments, ∃ s, RecordedAt h r block row s ∧
      t.get? row = some { s with outlet := none, linkCount := 0 }
  segmented : answer ≠ .ok none
  distinct : ∀ id, answer ≠ .error (.duplicateSegmentId id)
  refused : ∀ e, answer = .error e →
    r.iseg = none ∧ e = .record (.missingRecord .iseg r.grid well) ∨
    (∃ iseg, r.iseg = some iseg) ∧ ∃ row < h.maxSegments,
      (∀ earlier < row, ∃ s, RecordedAt h r block earlier s) ∧
      ∃ cause, e = .record cause ∧ FailsWith h r well block row cause

theorem loadsBlock_missing (hmissing : r.iseg = none) :
    LoadsBlock h r well block (.error (.record (.missingRecord .iseg r.grid well))) := by
  constructor <;> simp [hmissing]

theorem loadsBlock_ofRows {iseg : Array Int32} {rows : List SegmentRow}
    (hiseg : r.iseg = some iseg)
    (hrows : List.Forall₂ (RecordedAt h r block) (List.range h.maxSegments) rows) :
    LoadsBlock h r well block (.ok (some (ofRows rows))) := by
  obtain ⟨hlength, hget⟩ := List.forall₂_iff_get.mp hrows
  rw [List.length_range] at hlength
  have hrecorded : ∀ row (hlt : row < rows.length), RecordedAt h r block row rows[row] := by
    intro row hlt
    simpa using hget row (by simpa [hlength] using hlt) hlt
  have hids : (rows.map (·.id)).Nodup := by
    rw [List.Nodup, List.pairwise_map, List.pairwise_iff_getElem]
    intro i j hi hj hlt heq
    have hid := (hrecorded i hi).id
    rw [heq, (hrecorded j hj).id] at hid
    omega
  have hrow : ∀ row < h.maxSegments, ∃ s, RecordedAt h r block row s ∧
      (ofRows rows).get? row = some s.segment := by
    intro row hlt
    have hin : row < rows.length := hlength ▸ hlt
    refine ⟨rows[row], hrecorded row hin, ?_⟩
    rw [get?, ← Array.getElem?_toList, rows_ofRows hids, List.getElem?_map,
      List.getElem?_eq_getElem hin]
    rfl
  constructor
  case accepted =>
    exact iff_of_true ⟨_, rfl⟩ ⟨⟨iseg, hiseg⟩, fun row hlt => (hrow row hlt).imp fun _ h => h.1⟩
  case table =>
    rintro t ht
    cases ht
    exact ⟨(size_ofRows hids).trans hlength.symm, hrow⟩
  case segmented => simp
  case distinct => simp
  case refused => simp

theorem loadsBlock_failed {iseg : Array Int32} {row : Nat} {cause : RecordError}
    (hiseg : r.iseg = some iseg) (hlt : row < h.maxSegments)
    (hearlier : ∀ earlier < row, ∃ s, RecordedAt h r block earlier s)
    (hcause : FailsWith h r well block row cause) :
    LoadsBlock h r well block (.error (.record cause)) := by
  constructor
  case accepted =>
    refine iff_of_false (by simp) ?_
    intro ⟨_, hall⟩
    obtain ⟨s, hs⟩ := hall row hlt
    exact hcause.not_recordedAt hs
  case table => simp
  case segmented => simp
  case distinct => simp
  case refused =>
    intro e he
    cases he
    exact .inr ⟨⟨iseg, hiseg⟩, row, hlt, hearlier, cause, rfl, hcause⟩

/-- Either every row of the block can be read, or one is the first that cannot. -/
theorem loadsBlock_load (hr : r.Counted) (hbound : h.maxSegments < 2147483648)
    (hw : WellHeader.decode h r well = .ok w) (hblock : w.segmentBlock = some block)
    (held : SegmentReals) : LoadsBlock h r well block (load ⟨h, r, held⟩ well).1 := by
  have hrecorded : ∀ row < h.maxSegments, ∀ s,
      ofRecords h r well block row = .ok s ↔ RecordedAt h r block row s := by
    intro row hlt s
    rw [ofRecords_eq_ok, reads_iff_recordedAt hr (by omega)]
  cases hiseg : r.iseg with
  | none =>
      rw [load_of_missing hw hblock hiseg]
      exact loadsBlock_missing hiseg
  | some iseg =>
      rw [load_eq_mapM hw hblock (Nat.le_of_lt hbound), GridRecords.segmentRecord, hiseg]
      dsimp only [bind, Except.bind]
      cases hrows : (List.range h.maxSegments).mapM (ofRecords h r well block) with
      | ok rows =>
          have hbounded := (List.forall₂_and_left _ _).mpr
            ⟨fun _ => List.mem_range.mp, mapM_eq_ok.mp hrows⟩
          exact loadsBlock_ofRows hiseg
            (hbounded.imp fun row s hrow => (hrecorded row hrow.1 s).mp hrow.2)
      | error cause =>
          obtain ⟨row, hlt, hearlier, hcause⟩ := first_of_mapM_range_eq_error hrows
          refine loadsBlock_failed hiseg hlt ?_ (failsWith_of_ofRecords hr hcause)
          intro earlier hbefore
          obtain ⟨s, hs⟩ := hearlier earlier hbefore
          exact ⟨s, (hrecorded earlier (by omega) s).mp hs⟩

/-- A well has no table if its row does not announce one, whatever stands in the segment records.
If it does, a complete block gives a table and nothing else does. -/
theorem load_accepts_complete (hr : r.Counted) (hbound : h.maxSegments < 2147483648)
    (hw : WellHeader.decode h r well = .ok w) (hrow : r.wellRow h well = .ok row)
    (hleast : ∀ raw, row[WellHeader.segmentBlockColumn]? = some raw → Int32.minValue < raw) :
    (row[WellHeader.segmentBlockColumn]? = none ∨
        row[WellHeader.segmentBlockColumn]? = some 0 →
      ∀ iseg rseg held, (load ⟨h, { r with iseg, rseg }, held⟩ well).1 = .ok none) ∧
    ∀ raw, row[WellHeader.segmentBlockColumn]? = some raw → raw ≠ 0 →
      ∀ held, LoadsBlock h r well (raw.toInt - 1).toNat (load ⟨h, r, held⟩ well).1 := by
  have hblock : w.segmentBlock = WellHeader.segmentBlockOf row := by
    obtain ⟨_, row', _, _, _, _, _, _, -, hrow', -, -, -, -, -, -, rfl⟩ :=
      WellHeader.decode_eq_ok.mp hw
    rw [hrow] at hrow'
    cases hrow'
    rfl
  constructor
  · intro hnormal iseg rseg held
    refine load_of_none hw ?_
    rw [hblock, WellHeader.segmentBlockOf]
    rcases hnormal with hnone | hzero
    · rw [hnone]
    · rw [hzero]
      rfl
  · intro raw hraw hne held
    refine loadsBlock_load hr hbound hw ?_ held
    rw [hblock, WellHeader.segmentBlockOf, hraw, ← fromOne_eq (hleast raw hraw)]
    exact if_neg hne

/-- Blocks of two rows. -/
def twoRowBlocks : ReportHeader where
  reportStep := 1
  simTime := ⟨0, 0⟩
  wellWidth := 71
  maxSegments := 2
  segmentWidth := 4
  segmentRealWidth := 8
  maxConnections := 0
  connectionWidth := 1
  connectionRealWidth := 1

/-- A well with a block of two segments, which it may announce. -/
def oneBlock (announced : Int32) (rseg : Array Float) : GridRecords where
  grid := .global
  wellNames := ["M"]
  iwel := (Array.replicate 71 0).setIfInBounds 70 announced
  icon := #[]
  iseg := some #[0, 0, 0, 1, 0, 1, 0, 1]
  rseg := some rseg

def fullReals : Array Float := #[1, 0, 0.5, 0, 0, 0, 1, 10, 2, 0, 0.5, 0, 0, 0, 3, 12]

theorem oneBlock_counted (announced : Int32) {rseg : Array Float} (hrseg : rseg.size ≤ 16) :
    (oneBlock announced rseg).Counted := by
  have hsmall : 71 < UInt64.size := by decide
  constructor
  case iwel => simpa [oneBlock] using hsmall
  case icon => exact Nat.zero_lt_of_lt hsmall
  case scon => exact fun _ h => nomatch h
  case iseg => intro iseg h; cases h; decide
  case rseg => intro rseg h; cases h; omega

theorem oneBlock_announces {announced : Int32} {rseg : Array Float}
    (hleast : Int32.minValue < announced) :
    ∀ raw, (oneBlock announced rseg).iwel[WellHeader.segmentBlockColumn]? = some raw →
      Int32.minValue < raw := by
  intro raw hraw
  rw [oneBlock, WellHeader.segmentBlockColumn, Array.getElem?_setIfInBounds_self_of_lt (by simp)]
    at hraw
  cases hraw
  exact hleast

/-- The block is refused for the last real of its last row, and it is not asked for if the well
does not announce it. -/
theorem load_accepts_complete_oneBlock :
    (∀ held, LoadsBlock twoRowBlocks (oneBlock 1 fullReals) 0 0
      (load ⟨twoRowBlocks, oneBlock 1 fullReals, held⟩ 0).1) ∧
    (load ⟨twoRowBlocks, oneBlock 1 fullReals, {}⟩ 0).1 = .ok (some (ofRows
      [⟨1, 0, 1, ⟨10, 1, 1, 0.5⟩⟩, ⟨2, 1, 1, ⟨12, 2, 3, 0.5⟩⟩])) ∧
    (∀ held, LoadsBlock twoRowBlocks (oneBlock 1 fullReals.pop) 0 0
      (load ⟨twoRowBlocks, oneBlock 1 fullReals.pop, held⟩ 0).1) ∧
    (load ⟨twoRowBlocks, oneBlock 1 fullReals.pop, {}⟩ 0).1 =
      .error (.record (.recordTooShort .rseg 15 15)) ∧
    ∀ iseg rseg held,
      (load ⟨twoRowBlocks, { oneBlock 0 fullReals with iseg, rseg }, held⟩ 0).1 = .ok none := by
  let w (block : Option Nat) : WellHeader :=
    ⟨"M", .global, 0, ⟨0, 0, 0⟩, 0, .undefined, false, block⟩
  obtain ⟨hfull, hfullRow, hshort, hshortRow, hplain, hplainRow⟩ :
      WellHeader.decode twoRowBlocks (oneBlock 1 fullReals) 0 = .ok (w (some 0)) ∧
        (oneBlock 1 fullReals).wellRow twoRowBlocks 0 = .ok (oneBlock 1 fullReals).iwel ∧
        WellHeader.decode twoRowBlocks (oneBlock 1 fullReals.pop) 0 = .ok (w (some 0)) ∧
        (oneBlock 1 fullReals.pop).wellRow twoRowBlocks 0 = .ok (oneBlock 1 fullReals.pop).iwel ∧
        WellHeader.decode twoRowBlocks (oneBlock 0 fullReals) 0 = .ok (w none) ∧
        (oneBlock 0 fullReals).wellRow twoRowBlocks 0 = .ok (oneBlock 0 fullReals).iwel := by
    decide +kernel
  refine ⟨?_, by decide +kernel, ?_, by decide +kernel, ?_⟩
  · exact (load_accepts_complete (oneBlock_counted 1 (by decide)) (by decide) hfull hfullRow
      (oneBlock_announces (by decide))).2 1 rfl (by decide)
  · exact (load_accepts_complete (oneBlock_counted 1 (by decide)) (by decide) hshort hshortRow
      (oneBlock_announces (by decide))).2 1 rfl (by decide)
  · exact (load_accepts_complete (oneBlock_counted 0 (by decide)) (by decide) hplain hplainRow
      (oneBlock_announces (by decide))).1 (.inr rfl)

end SegmentTable

end Wellbore
