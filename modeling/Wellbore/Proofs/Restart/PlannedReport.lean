import Wellbore.Proofs.Restart.ReadBack
import Wellbore.Proofs.Segment.Loading

/-!
# Planned reports read back as planned

A plan can be written if and only if memory can hold its records, and then every
decoder gives back what the plan says. The segment tables of the global grid are
the last part: their blocks are only there for wells with segments, and rows that
no well has filled read as inactive segments.
-/

namespace Wellbore

open WellPlan (hasSegments)

/-! ## One row -/

section
variable {h : ReportHeader} {r : GridRecords} {well block row : Nat}

/-- A row with the values of a planned segment reads as that segment. -/
theorem SegmentPlan.reads (s : SegmentPlan)
    (hints : r.segmentRow h well block row =
      .ok (rowWith 0 (Segment.branchColumn + 1) s.ints).toArray)
    (hreals : r.segmentReals h well block row =
      .ok (rowWith 0 (SegmentReals.depthColumn + 1) s.reals).toArray)
    (hint : Fits (Segment.branchColumn + 1) s.ints)
    (hreal : Fits (SegmentReals.depthColumn + 1) s.reals)
    (hfinite : s.depth.isFinite = true ∧ s.length.isFinite = true ∧
      s.totalLength.isFinite = true ∧ s.diameter.isFinite = true) :
    Segment.Reads h r well block row (s.segmentRow row) := by
  have hinteger : ∀ v ∈ s.ints,
      (rowWith 0 (Segment.branchColumn + 1) s.ints).toArray[v.1]? = some v.2 :=
    fun _ => getElem?_toArray_rowWith hint
  have hvalue : ∀ v ∈ s.reals,
      (rowWith 0 (SegmentReals.depthColumn + 1) s.reals).toArray[v.1]? = some v.2 :=
    fun _ => getElem?_toArray_rowWith hreal
  constructor
  case id => rfl
  case links =>
    rw [Segment.linksOfRow_eq_ok]
    exact ⟨_, hints, hinteger (Segment.outletColumn, s.outlet) (by simp [ints]),
      hinteger (Segment.branchColumn, s.branch) (by simp [ints])⟩
  case reals =>
    obtain ⟨hdepth, hlength, htotal, hdiameter⟩ := hfinite
    refine ⟨_, hreals, ⟨?_, hdepth⟩, ⟨?_, hlength⟩, ⟨?_, htotal⟩, ?_, hdiameter⟩
    · exact hvalue (SegmentReals.depthColumn, s.depth) (by simp [reals])
    · exact hvalue (SegmentReals.lengthColumn, s.length) (by simp [reals])
    · exact hvalue (SegmentReals.totalLengthColumn, s.totalLength) (by simp [reals])
    · exact hvalue (SegmentReals.diameterColumn, s.diameter) (by simp [reals])

/-- A blank row reads as an inactive segment. -/
theorem SegmentRow.reads_blank
    (hints : r.segmentRow h well block row =
      .ok (rowWith 0 (Segment.branchColumn + 1) []).toArray)
    (hreals : r.segmentReals h well block row =
      .ok (rowWith 0 (SegmentReals.depthColumn + 1) []).toArray) :
    Segment.Reads h r well block row (SegmentRow.unused row) := by
  have hzero : (0 : Float).isFinite = true := by decide +kernel
  have hinteger : ∀ column < Segment.branchColumn + 1,
      (rowWith (0 : Int32) (Segment.branchColumn + 1) []).toArray[column]? = some 0 :=
    fun _ => getElem?_toArray_rowWith_nil
  have hvalue : ∀ column < SegmentReals.depthColumn + 1,
      (rowWith (0 : Float) (SegmentReals.depthColumn + 1) []).toArray[column]? = some 0 :=
    fun _ => getElem?_toArray_rowWith_nil
  constructor
  case id => rfl
  case links =>
    rw [Segment.linksOfRow_eq_ok]
    exact ⟨_, hints, hinteger _ (by decide), hinteger _ (by decide)⟩
  case reals =>
    exact ⟨_, hreals, ⟨hvalue _ (by decide), hzero⟩, ⟨hvalue _ (by decide), hzero⟩,
      ⟨hvalue _ (by decide), hzero⟩, hvalue _ (by decide), hzero⟩

end

namespace ReportPlan

namespace GridPlan

variable {h : ReportHeader} {g : GridPlan} {w : WellPlan} {n i : Nat}

/-! ## Segment rows -/

theorem kept_eq (hkeep : g.keepsSegments = true) (hw : g.wells[n]? = some w)
    (hsegments : w.hasSegments = true) :
    (g.records h).iseg = some (Sheets.layout h g.wells []).iseg ∧
      (g.records h).rseg = some (Sheets.layout h g.wells []).rseg := by
  have hpos : 0 < g.wells.countP hasSegments :=
    List.countP_pos_iff.mpr ⟨w, List.mem_of_getElem? hw, hsegments⟩
  unfold records
  simp [hkeep, hpos]

theorem segmentRow_eq_ok (hsuits : h.Suits g.wells) (hfits : g.Fits h)
    (hkeep : g.keepsSegments = true) (hw : g.wells[n]? = some w)
    (hsegments : w.hasSegments = true) (hi : i < h.maxSegments) :
    (g.records h).segmentRow h n (g.blocksBefore n) i =
      .ok (rowWith 0 h.segmentWidth (w.isegRows[i]?.getD [])).toArray := by
  have hrecord : (g.records h).segmentRecord n = .ok (Sheets.layout h g.wells []).iseg := by
    rw [GridRecords.segmentRecord, (kept_eq hkeep hw hsegments).1]
  unfold GridRecords.segmentRow
  rw [bind_eq_ok]
  refine ⟨_, hrecord, ?_⟩
  refine rowOf_block .iseg toList_sheet (fun v hv => hsuits.isegRows (List.mem_of_mem_filter hv))
    (hsuits.segmentWidth ▸ Nat.succ_pos _) ?_ (WellPlan.getElem?_filter_hasSegments hw hsegments) hi
  rw [← List.countP_eq_length_filter]
  exact lt_size_of_bytes (by omega) hfits.iseg

theorem segmentReals_eq_ok (hsuits : h.Suits g.wells) (hfits : g.Fits h)
    (hkeep : g.keepsSegments = true) (hw : g.wells[n]? = some w)
    (hsegments : w.hasSegments = true) (hi : i < h.maxSegments) :
    (g.records h).segmentReals h n (g.blocksBefore n) i =
      .ok (rowWith 0 h.segmentRealWidth (w.rsegRows[i]?.getD [])).toArray := by
  have hrecord : (g.records h).segmentRealRecord n = .ok (Sheets.layout h g.wells []).rseg := by
    rw [GridRecords.segmentRealRecord, (kept_eq hkeep hw hsegments).2]
  unfold GridRecords.segmentReals
  rw [bind_eq_ok]
  refine ⟨_, hrecord, ?_⟩
  refine rowOf_block .rseg toList_sheet (fun v hv => hsuits.rsegRows (List.mem_of_mem_filter hv))
    (hsuits.segmentRealWidth ▸ Nat.succ_pos _) ?_
    (WellPlan.getElem?_filter_hasSegments hw hsegments) hi
  rw [← List.countP_eq_length_filter]
  exact lt_size_of_bytes (by omega) hfits.rseg

/-- A row of the block of a well reads as the segment of that row. -/
theorem reads_segmentRow (hsuits : h.Suits g.wells) (hfits : g.Fits h)
    (hkeep : g.keepsSegments = true) (hw : g.wells[n]? = some w) (hrange : w.InRange)
    (hsegments : w.hasSegments = true) (hi : i < h.maxSegments) :
    Segment.Reads h (g.records h) n (g.blocksBefore n) i (w.segmentRow i) := by
  have hints := segmentRow_eq_ok hsuits hfits hkeep hw hsegments hi
  have hreals := segmentReals_eq_ok hsuits hfits hkeep hw hsegments hi
  rw [hsuits.segmentWidth] at hints
  rw [hsuits.segmentRealWidth] at hreals
  cases hs : w.segments[i]? with
  | some s =>
      have hint : w.isegRows[i]? = some s.ints := by
        rw [WellPlan.isegRows, List.getElem?_map, hs]
        rfl
      have hreal : w.rsegRows[i]? = some s.reals := by
        rw [WellPlan.rsegRows, List.getElem?_map, hs]
        rfl
      have hsegment : w.segmentRow i = s.segmentRow i := by
        rw [WellPlan.segmentRow, hs]
      rw [hint, Option.getD_some] at hints
      rw [hreal, Option.getD_some] at hreals
      rw [hsegment]
      exact s.reads hints hreals (WellPlan.fits_isegRows w _ (List.mem_of_getElem? hint))
        (WellPlan.fits_rsegRows w _ (List.mem_of_getElem? hreal))
        (hrange.finite s (List.mem_of_getElem? hs))
  | none =>
      have hint : w.isegRows[i]? = none := by
        rw [WellPlan.isegRows, List.getElem?_map, hs]
        rfl
      have hreal : w.rsegRows[i]? = none := by
        rw [WellPlan.rsegRows, List.getElem?_map, hs]
        rfl
      have hsegment : w.segmentRow i = .unused i := by
        rw [WellPlan.segmentRow, hs]
      rw [hint, Option.getD_none] at hints
      rw [hreal, Option.getD_none] at hreals
      rw [hsegment]
      exact SegmentRow.reads_blank hints hreals

/-- Without segment records there is nothing to read. -/
theorem iseg_eq_none (hkeep : g.keepsSegments = false) : (g.records h).iseg = none := by
  unfold records
  simp [hkeep]

/-- The segment table of a planned well, which only an announced one has. -/
def table (h : ReportHeader) (g : GridPlan) (n : Nat) (w : WellPlan) :
    Except TopologyError (Option SegmentTable) :=
  if w.segmented && w.hasSegments then
    if g.keepsSegments then
      .ok (some (.ofRows ((List.range h.maxSegments).map w.segmentRow)))
    else .error (.record (.missingRecord .iseg g.grid n))
  else .ok none

theorem load_segments {held : SegmentReals} (hsuits : h.Suits g.wells) (hfits : g.Fits h)
    (hcount : g.wells.length < 2147483648) (hmax : h.maxSegments ≤ 2147483648)
    (hw : g.wells[n]? = some w) (hrange : w.InRange) :
    (SegmentTable.load ⟨h, g.records h, held⟩ n).1 = table h g n w := by
  have hheader := decode_header hsuits hfits hcount hw hrange
  unfold table
  by_cases hannounced : (w.segmented && w.hasSegments) = true
  · have hblock : (w.header g.grid n (g.blocksBefore n)).segmentBlock =
        some (g.blocksBefore n) := by
      rw [WellPlan.header, if_pos hannounced]
    rw [if_pos hannounced]
    have hsegments := (Bool.and_eq_true _ _ ▸ hannounced).2
    cases hkeep : g.keepsSegments with
    | true =>
        rw [if_pos rfl]
        refine SegmentTable.load_of_reads hheader hblock ?_ hmax ?_
        · rw [(kept_eq hkeep hw hsegments).1]
          rfl
        · rw [List.forall₂_map_right_iff, List.forall₂_same]
          intro i hi
          exact reads_segmentRow hsuits hfits hkeep hw hrange hsegments (List.mem_range.mp hi)
    | false =>
        rw [if_neg Bool.false_ne_true]
        exact SegmentTable.load_of_missing hheader hblock (iseg_eq_none hkeep)
  · have hnone : (w.header g.grid n (g.blocksBefore n)).segmentBlock = none := by
      rw [WellPlan.header, if_neg hannounced]
    rw [if_neg hannounced]
    exact SegmentTable.load_of_none hheader hnone

/-! ## A whole report -/

/-- The decoders give back what the plan says about a grid. -/
structure ReadsBack (h : ReportHeader) (g : GridPlan) (r : GridRecords) : Prop where
  header : ∀ (n : Nat) (w : WellPlan), g.wells[n]? = some w →
    WellHeader.decode h r n = .ok (w.header g.grid n (g.blocksBefore n))
  connections : ∀ (n : Nat) (w : WellPlan) (segmented : Bool), g.wells[n]? = some w →
    Connection.load h r (w.header g.grid n (g.blocksBefore n)) segmented =
      .ok (w.connections.map (ConnectionPlan.connection g.grid segmented))
  segments : ∀ (n : Nat) (w : WellPlan) (held : SegmentReals), g.wells[n]? = some w →
    (SegmentTable.load ⟨h, r, held⟩ n).1 = table h g n w

end GridPlan

theorem readsBack_records {p : ReportPlan} {g : GridPlan} (hg : g ∈ p.grids)
    (hfits : g.Fits p.header) (hcount : g.wells.length < 2147483648)
    (hrange : ∀ w ∈ p.allWells, w.InRange) : g.ReadsBack p.header (g.records p.header) := by
  have hsuits := suits_header hg
  have hmax : p.header.maxSegments ≤ 2147483648 :=
    largest_map_le (by decide) fun w hw => (hrange w hw).segments.le
  have hwell : ∀ {n : Nat} {w : WellPlan}, g.wells[n]? = some w → w.InRange := fun hw =>
    hrange _ (mem_allWells hg (List.mem_of_getElem? hw))
  constructor
  case header =>
    exact fun n w hw => GridPlan.decode_header hsuits hfits hcount hw (hwell hw)
  case connections =>
    exact fun n w segmented hw => GridPlan.load_connections hsuits hfits hw (hwell hw)
  case segments =>
    exact fun n w held hw => GridPlan.load_segments hsuits hfits hcount hmax hw (hwell hw)

/-- A plan can be written if and only if memory can hold its records, as it can if no count
exceeds 268435456. Reading the records of every grid gives the plan back. -/
theorem report?_readsBack {p : ReportPlan} (hcount : ∀ g ∈ p.grids, g.wells.length < 2147483648)
    (hrange : ∀ w ∈ p.allWells, w.InRange) :
    ((∃ report, p.report? = some report) ↔ ∀ g ∈ p.grids, g.Fits p.header) ∧
      ((∀ g ∈ p.grids, g.wells.length ≤ 268435456) →
        (∀ w ∈ p.allWells, w.connections.length ≤ 268435456 ∧ w.segments.length ≤ 268435456) →
        ∃ report, p.report? = some report) ∧
      ∀ report, p.report? = some report → report.header = p.header ∧
        List.Forall₂ (GridPlan.ReadsBack p.header) p.grids report.grids ∧
        ∃ r, report.globalGrid = .ok r ∧
          GridPlan.ReadsBack p.header ⟨.global, p.wells, !p.omitSegments⟩ r := by
  refine ⟨?_, exists_report?_eq_some, fun report hreport => ?_⟩
  · simp only [report?_eq_some]
    exact ⟨fun ⟨_, hfits, _⟩ => hfits, fun hfits => ⟨_, hfits, rfl⟩⟩
  · obtain ⟨hfits, rfl⟩ := report?_eq_some.mp hreport
    have hreads : ∀ g ∈ p.grids, g.ReadsBack p.header (g.records p.header) := fun g hg =>
      readsBack_records hg (hfits g hg) (hcount g hg) hrange
    refine ⟨rfl, ?_, GridPlan.records p.header ⟨.global, p.wells, !p.omitSegments⟩, ?_, ?_⟩
    · rw [List.forall₂_map_right_iff, List.forall₂_same]
      exact hreads
    · unfold Report.globalGrid Report.grid grids
      rw [List.map_cons, List.find?_cons_of_pos (by simp [GridPlan.records])]
    · exact hreads _ (List.mem_cons_self ..)

/-- Of three wells with segment rows one is not announced, and a refinement has the
longest block. -/
def mixedPlan : ReportPlan where
  reportStep := 1
  simTime := ⟨0, 0⟩
  wells := [
    { name := "STRAY", segments := [{ outlet := 0, branch := 1 }]
      connections := [{ i := 1, j := 1, k := 0 }] },
    { name := "PLAIN", kind := 3, isOpen := false },
    { name := "LATERAL", segmented := true, headK := -7
      segments := [{ outlet := 0, branch := 1 },
        { outlet := 1, branch := 2, depth := 2100, diameter := 0.25 }]
      connections := [{ i := 2, j := 1, k := 1, segment := 2 }] }]
  refinements := [(.refinement "R", [{ name := "LATERAL", segmented := true
                                       segments := [{ outlet := 0, branch := 1 }]
                                       connections := [{ i := 1, j := 1, k := 1, segment := 1 },
                                         { i := 1, j := 2, k := 1, direction := 9 }] }])]

theorem report?_readsBack_mixedPlan : ∃ report, mixedPlan.report? = some report ∧
    List.Forall₂ (GridPlan.ReadsBack mixedPlan.header) mixedPlan.grids report.grids := by
  have hreads := @report?_readsBack mixedPlan (by decide) (by decide +kernel)
  obtain ⟨report, hreport⟩ := hreads.2.1 (by decide) (by decide)
  exact ⟨report, hreport, (hreads.2.2 report hreport).2.1⟩

/-- A well with many connections. -/
def longWell (n : Nat) : WellPlan where
  name := "LONG"
  connections := List.replicate n { i := 1, j := 1, k := 1 }

/-- Behind plain wells comes one that has as many connections as there are of those. -/
def longPlan (n : Nat) : ReportPlan where
  reportStep := 1
  simTime := ⟨0, 0⟩
  wells := List.replicate n { name := "PLAIN" } ++ [longWell n]

section
variable {n : Nat}

theorem allWells_longPlan : (longPlan n).allWells = (longPlan n).wells := List.append_nil _

theorem grids_longPlan : (longPlan n).grids = [⟨.global, (longPlan n).wells, true⟩] := rfl

theorem length_wells_longPlan : (longPlan n).wells.length = n + 1 := by
  rw [longPlan, List.length_append, List.length_replicate, List.length_singleton]

theorem inRange_longPlan (hn : n < 2147483648) : ∀ w ∈ (longPlan n).allWells, w.InRange := by
  have hminimum : Int32.minValue < 1 := by decide
  rw [allWells_longPlan, longPlan, List.forall_mem_append, List.forall_mem_singleton]
  refine ⟨fun w hw => ?_, ?_⟩
  · rw [(List.mem_replicate.mp hw).2]
    decide
  · constructor
    case connections => exact List.length_replicate.trans_lt hn
    case segments => exact Nat.zero_lt_succ _
    case head => exact ⟨hminimum, hminimum, hminimum⟩
    case cells =>
      intro c hc
      rw [(List.mem_replicate.mp hc).2]
      exact ⟨hminimum, hminimum, hminimum⟩
    case finite => exact fun _ h => nomatch h

/-- The rows of the long well make the connection record longer than memory is. -/
theorem report?_longPlan_eq_none (hn : mostBytes < (n + 1) * n * 15 * 4) :
    (longPlan n).report? = none := by
  rw [Option.eq_none_iff_forall_ne_some]
  intro report hreport
  have hfits := (report?_eq_some.mp hreport).1 _ (List.mem_singleton_self _)
  have hicon : (longPlan n).wells.length * (longPlan n).header.maxConnections * 15 * 4 ≤
    mostBytes := hfits.icon
  have hlong : longWell n ∈ (longPlan n).allWells := by
    rw [allWells_longPlan]
    exact List.mem_append_right _ (List.mem_singleton_self _)
  have hmax : n ≤ (longPlan n).header.maxConnections := by
    have hle := le_largest_map (fun w => w.connections.length) hlong
    rwa [longWell, List.length_replicate] at hle
  rw [length_wells_longPlan] at hicon
  have hrows : (n + 1) * n ≤ (n + 1) * (longPlan n).header.maxConnections :=
    Nat.mul_le_mul_left _ hmax
  omega

end

/-- Counts that record integers hold may be too large for memory: the plan has as many wells, and
connections of a well, as can be written. -/
theorem report?_longPlan :
    (∀ g ∈ (longPlan 2147483646).grids, g.wells.length < 2147483648) ∧
      (∀ w ∈ (longPlan 2147483646).allWells, w.InRange) ∧
      (longPlan 2147483646).report? = none := by
  refine ⟨?_, inRange_longPlan (by decide), report?_longPlan_eq_none (by decide)⟩
  rw [grids_longPlan, List.forall_mem_singleton, length_wells_longPlan]
  decide

end ReportPlan

end Wellbore
