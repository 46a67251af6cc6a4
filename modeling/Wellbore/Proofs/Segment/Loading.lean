import Wellbore.Segment.Loading
import Wellbore.Proofs.Segment.Table
import Wellbore.Proofs.Restart.WellHeader
import Mathlib.Data.List.Forall2
import Mathlib.Data.List.Nodup

/-!
# What loading segments gives

One row of the segment records stands for one segment: its links come from the
integers and its position from the reals, all of which must be finite. What the
reader kept from earlier rows never shows, and the numbers of the segments cannot
collide, because they count the rows. So loading is reading the rows of a block each
on its own (`load_eq_mapM`), and a table that comes back holds the segments of all of
them, in order.
-/

namespace Wellbore

/-! ## One after the other -/

section
variable {α β ε : Type} {f : α → Except ε β}

theorem mapM_eq_ok {xs : List α} {ys : List β} :
    xs.mapM f = .ok ys ↔ List.Forall₂ (fun x y => f x = .ok y) xs ys := by
  induction xs generalizing ys with
  | nil => rw [List.mapM_nil, pure_eq_ok, List.forall₂_nil_left_iff, eq_comm]
  | cons x xs ih =>
      rw [List.mapM_cons, List.forall₂_cons_left_iff]
      simp only [bind_eq_ok, pure_eq_ok, ih]
      grind

/-- What fails is the first that can fail. -/
theorem first_of_mapM_eq_error {xs : List α} {e : ε} (h : xs.mapM f = .error e) :
    ∃ before x after, xs = before ++ x :: after ∧ (∀ a ∈ before, ∃ b, f a = .ok b) ∧
      f x = .error e := by
  induction xs with
  | nil => cases h
  | cons x xs ih =>
      rw [List.mapM_cons, bind_eq_error] at h
      rcases h with hx | ⟨b, hx, h⟩
      · exact ⟨[], x, xs, rfl, by simp, hx⟩
      · obtain hxs | ⟨bs, -, hpure⟩ := bind_eq_error.mp h
        · obtain ⟨before, y, after, rfl, hbefore, hy⟩ := ih hxs
          exact ⟨x :: before, y, after, rfl, List.forall_mem_cons.mpr ⟨⟨b, hx⟩, hbefore⟩, hy⟩
        · cases hpure

theorem first_of_mapM_range_eq_error {f : Nat → Except ε β} {n : Nat} {e : ε}
    (h : (List.range n).mapM f = .error e) :
    ∃ k < n, (∀ j < k, ∃ b, f j = .ok b) ∧ f k = .error e := by
  obtain ⟨before, k, after, hsplit, hbefore, hk⟩ := first_of_mapM_eq_error h
  have hsorted := List.pairwise_lt_range (n := n)
  have hmem : ∀ j, j < n ↔ j ∈ before ∨ j = k ∨ j ∈ after := by
    intro j
    rw [← List.mem_range, hsplit, List.mem_append, List.mem_cons]
  rw [hsplit, List.pairwise_append, List.pairwise_cons] at hsorted
  have hkn : k < n := (hmem k).mpr (.inr (.inl rfl))
  refine ⟨k, hkn, fun j hj => hbefore j ?_, hk⟩
  rcases (hmem j).mp (Nat.lt_trans hj hkn) with hin | rfl | hin
  · exact hin
  · exact absurd hj (Nat.lt_irrefl j)
  · exact absurd hj (Nat.not_lt_of_gt (hsorted.2.1.1 j hin))

end

/-! ## Reals -/

/-- The reals of a segment stand in their columns, and they are finite. -/
structure SegmentReals.StandIn (reals : SegmentReals) (values : Array Float) : Prop where
  depth : values[depthColumn]? = some reals.depth ∧ reals.depth.isFinite = true
  length : values[lengthColumn]? = some reals.length ∧ reals.length.isFinite = true
  totalLength : values[totalLengthColumn]? = some reals.totalLength ∧
    reals.totalLength.isFinite = true
  diameter : values[diameterColumn]? = some reals.diameter ∧ reals.diameter.isFinite = true

namespace RealColumn

variable {c : RealColumn} {cs : List RealColumn} {values : Array Float} {x : Float}
  {held held' : SegmentReals}

theorem value_eq_ok : c.value values = .ok x ↔
    values[c.index]? = some x ∧ x.isFinite = true := by
  unfold value
  simp only [bind_eq_ok, fieldOf_eq_ok]
  constructor
  · rintro ⟨raw, hraw, hx⟩
    unfold requireFinite at hx
    split at hx
    next y hy =>
      split at hy
      next hfinite =>
        cases hy
        cases hx
        exact ⟨hraw, hfinite⟩
      next => cases hy
    next => cases hx
  · rintro ⟨hraw, hfinite⟩
    refine ⟨x, hraw, ?_⟩
    rw [requireFinite, if_pos hfinite]
    rfl

theorem fill_nil : fill values [] held = (.ok (), held') ↔ held' = held := by
  simp [fill, eq_comm]

theorem fill_cons : fill values (c :: cs) held = (.ok (), held') ↔
    ∃ x, c.value values = .ok x ∧ fill values cs (c.store x held) = (.ok (), held') := by
  rw [fill]
  cases c.value values with
  | error e => simp
  | ok x => simp

/-- Reading all columns leaves nothing of what was held before. -/
theorem fill_all : fill values all held = (.ok (), held') ↔ held'.StandIn values := by
  simp only [all, fill_cons, fill_nil, value_eq_ok]
  constructor
  · rintro ⟨depth, hdepth, length, hlength, total, htotal, diameter, hdiameter, rfl⟩
    exact ⟨hdepth, hlength, htotal, hdiameter⟩
  · rintro ⟨hdepth, hlength, htotal, hdiameter⟩
    exact ⟨_, hdepth, _, hlength, _, htotal, _, hdiameter, rfl⟩

end RealColumn

theorem RealColumn.fill_fst (values : Array Float) (cs : List RealColumn)
    (held held' : SegmentReals) : (fill values cs held).1 = (fill values cs held').1 := by
  induction cs generalizing held held' with
  | nil => rfl
  | cons c cs ih =>
      unfold fill
      cases c.value values with
      | error e => rfl
      | ok x => exact ih _ _

/-- The reals that stand in a row, as a reader gets them that has read nothing before. -/
def SegmentReals.ofRow (values : Array Float) : Except RecordError SegmentReals :=
  match RealColumn.fill values RealColumn.all {} with
  | (.ok (), reals) => .ok reals
  | (.error e, _) => .error e

theorem SegmentReals.ofRow_of_fill {values : Array Float} {held : SegmentReals}
    {outcome : Except RecordError Unit × SegmentReals}
    (hfill : RealColumn.fill values RealColumn.all held = outcome) :
    ofRow values = outcome.1.map fun _ => outcome.2 := by
  have hfst := RealColumn.fill_fst values RealColumn.all {} held
  unfold ofRow
  rcases outcome with ⟨e | _, reals⟩
  · rcases hempty : RealColumn.fill values RealColumn.all {} with ⟨answer, k⟩
    rw [hfill, hempty] at hfst
    dsimp only at hfst
    rw [hfst]
    rfl
  · -- A row that is good throughout replaces all that was held.
    rw [RealColumn.fill_all.mpr (RealColumn.fill_all.mp hfill)]
    rfl

theorem SegmentReals.ofRow_eq_ok {values : Array Float} {reals : SegmentReals} :
    ofRow values = .ok reals ↔ reals.StandIn values := by
  rw [← @RealColumn.fill_all values {} reals]
  rcases hfill : RealColumn.fill values RealColumn.all {} with ⟨e | _, k⟩
  · simp [ofRow_of_fill hfill, Except.map]
  · simp [ofRow_of_fill hfill, Except.map]

/-- What a reader answers is a matter of the row alone. -/
theorem RealsReader.read_eq (r : RealsReader) (well block row : Nat) : ∃ held,
    r.read well block row =
      (r.records.segmentReals r.header well block row >>= SegmentReals.ofRow, { r with held }) := by
  unfold read
  cases r.records.segmentReals r.header well block row with
  | error e => exact ⟨r.held, rfl⟩
  | ok values =>
      rcases hfill : RealColumn.fill values RealColumn.all r.held with ⟨outcome, held⟩
      have hrow := SegmentReals.ofRow_of_fill hfill
      refine ⟨held, ?_⟩
      simp only [hfill]
      cases outcome with
      | error e => exact Prod.ext hrow.symm rfl
      | ok _ => exact Prod.ext hrow.symm rfl

/-! ## Rows -/

namespace Segment

variable {h : ReportHeader} {r : GridRecords} {well block row : Nat} {s : SegmentRow}

theorem linksOfRow_eq_ok {outlet branch : Int32} :
    linksOfRow h r well block row = .ok (outlet, branch) ↔
      ∃ ints, r.segmentRow h well block row = .ok ints ∧
        ints[outletColumn]? = some outlet ∧ ints[branchColumn]? = some branch := by
  unfold linksOfRow
  simp only [bind_eq_ok, fieldOf_eq_ok, pure_eq_ok, Prod.mk.injEq]
  constructor
  · rintro ⟨ints, hints, outlet, houtlet, branch, hbranch, rfl, rfl⟩
    exact ⟨ints, hints, houtlet, hbranch⟩
  · rintro ⟨ints, hints, houtlet, hbranch⟩
    exact ⟨ints, hints, outlet, houtlet, branch, hbranch, rfl, rfl⟩

/-- The segment in a row of a block, links before reals. -/
def ofRecords (h : ReportHeader) (r : GridRecords) (well block row : Nat) :
    Except RecordError SegmentRow := do
  let (outletId, branchId) ← linksOfRow h r well block row
  let reals ← r.segmentReals h well block row >>= SegmentReals.ofRow
  return ⟨idOfRow row, outletId, branchId, reals⟩

/-- A row of a block reads as a segment. -/
structure Reads (h : ReportHeader) (r : GridRecords) (well block row : Nat)
    (s : SegmentRow) : Prop where
  id : s.id = idOfRow row
  links : linksOfRow h r well block row = .ok (s.outletId, s.branchId)
  reals : ∃ values, r.segmentReals h well block row = .ok values ∧ s.reals.StandIn values

theorem ofRecords_eq_ok : ofRecords h r well block row = .ok s ↔ Reads h r well block row s := by
  unfold ofRecords
  simp only [bind_eq_ok, pure_eq_ok, SegmentReals.ofRow_eq_ok]
  constructor
  · rintro ⟨links, hlinks, reals, hreals, rfl⟩
    exact ⟨rfl, hlinks, hreals⟩
  · rintro ⟨hid, hlinks, hreals⟩
    exact ⟨_, hlinks, _, hreals, by rw [← hid]⟩

theorem idOfRow_inj {m n : Nat} (hm : m < 2147483648) (hn : n < 2147483648)
    (heq : idOfRow m = idOfRow n) : m = n :=
  succ_inj_of_lt hm hn heq

end Segment

namespace SegmentTable

open Segment (Reads idOfRow idOfRow_inj linksOfRow ofRecords ofRecords_eq_ok)

variable {h : ReportHeader} {r : GridRecords} {well block row left : Nat}
  {rows : List SegmentRow} {held : SegmentReals} {t : SegmentTable}

/-- Rows that count from zero have numbers of their own. -/
theorem nodup_map_idOfRow (hrow : row ≤ 2147483648) : ((List.range row).map idOfRow).Nodup := by
  refine List.nodup_range.map_on fun m hm n hn hid => ?_
  rw [List.mem_range] at hm hn
  exact idOfRow_inj (by omega) (by omega) hid

/-- Rows are read each on its own, up to the first that cannot be read: neither the reader nor
the table adds anything to it. -/
theorem readRows_eq_mapM (done : List SegmentRow)
    (hdone : done.map (·.id) = (List.range row).map idOfRow) (hbound : row + left ≤ 2147483648) :
    (readRows well block left row (ofRows done) ⟨h, r, held⟩).1 =
      (((List.range' row left).mapM (ofRecords h r well block)).mapError .record).map
        fun rows => ofRows (done ++ rows) := by
  induction left generalizing row done held with
  | zero =>
      rw [List.range'_zero, List.mapM_nil, readRows]
      simp [Except.mapError, Except.map, pure, Except.pure]
  | succ left ih =>
      rw [List.range'_succ, List.mapM_cons, readRows, ofRecords]
      dsimp only
      obtain ⟨k, hread⟩ := RealsReader.read_eq ⟨h, r, held⟩ well block row
      rw [hread]
      cases linksOfRow h r well block row with
      | error e => rfl
      | ok links =>
          dsimp only
          cases r.segmentReals h well block row >>= SegmentReals.ofRow with
          | error e => rfl
          | ok reals =>
              let s : SegmentRow := ⟨idOfRow row, links.1, links.2, reals⟩
              have hnext : (done ++ [s]).map (·.id) = (List.range (row + 1)).map idOfRow := by
                rw [List.map_append, hdone, List.range_succ, List.map_append]
                rfl
              have hinsert := insert_ofRows (hnext ▸ nodup_map_idOfRow (by omega))
              dsimp only
              rw [hinsert]
              dsimp only
              rw [ih _ hnext (by omega)]
              cases (List.range' (row + 1) left).mapM (ofRecords h r well block) with
              | error e => rfl
              | ok rows =>
                  simp [Except.mapError, Except.map, bind, Except.bind, pure, Except.pure, s]

theorem load_of_none {w : WellHeader} (hw : WellHeader.decode h r well = .ok w)
    (hnone : w.segmentBlock = none) : (load ⟨h, r, held⟩ well).1 = .ok none := by
  unfold load
  simp only [hw, hnone]

/-- What loading a segmented well comes to, with no state in the way. -/
theorem load_eq_mapM {w : WellHeader} (hw : WellHeader.decode h r well = .ok w)
    (hblock : w.segmentBlock = some block) (hbound : h.maxSegments ≤ 2147483648) :
    (load ⟨h, r, held⟩ well).1 =
      ((r.segmentRecord well >>= fun _ =>
        (List.range h.maxSegments).mapM (ofRecords h r well block)).mapError .record).map
          fun rows => some (ofRows rows) := by
  have hrows : (readRows well block h.maxSegments 0 {} ⟨h, r, held⟩).1 =
      (((List.range h.maxSegments).mapM (ofRecords h r well block)).mapError .record).map
        ofRows := by
    rw [List.range_eq_range']
    exact readRows_eq_mapM [] rfl (by omega)
  unfold load
  simp only [hw, hblock]
  cases r.segmentRecord well with
  | error e => rfl
  | ok iseg =>
      rcases hread : readRows well block h.maxSegments 0 {} ⟨h, r, held⟩ with ⟨outcome, reader⟩
      rw [hread] at hrows
      dsimp only [bind, Except.bind] at hrows ⊢
      rw [hrows]
      cases (List.range h.maxSegments).mapM (ofRecords h r well block) with
      | error e => rfl
      | ok rows => rfl

theorem load_of_missing {w : WellHeader} (hw : WellHeader.decode h r well = .ok w)
    (hblock : w.segmentBlock = some block) (hmissing : r.iseg = none) :
    (load ⟨h, r, held⟩ well).1 = .error (.record (.missingRecord .iseg r.grid well)) := by
  have hrecord : r.segmentRecord well = .error (.missingRecord .iseg r.grid well) := by
    rw [GridRecords.segmentRecord, hmissing]
  unfold load
  simp only [hw, hblock, hrecord]

/-- The table of a segmented well holds the segments of its block. -/
theorem load_of_reads {w : WellHeader} (hw : WellHeader.decode h r well = .ok w)
    (hblock : w.segmentBlock = some block) (hrecord : r.iseg.isSome = true)
    (hbound : h.maxSegments ≤ 2147483648)
    (hreads : List.Forall₂ (Reads h r well block) (List.range h.maxSegments) rows) :
    (load ⟨h, r, held⟩ well).1 = .ok (some (ofRows rows)) := by
  obtain ⟨iseg, hiseg⟩ := Option.isSome_iff_exists.mp hrecord
  have hrow : r.segmentRecord well = .ok iseg := by rw [GridRecords.segmentRecord, hiseg]
  have hall : (List.range h.maxSegments).mapM (ofRecords h r well block) = .ok rows :=
    mapM_eq_ok.mpr (hreads.imp fun _ _ => ofRecords_eq_ok.mpr)
  rw [load_eq_mapM hw hblock hbound, hrow]
  simp only [bind, Except.bind, hall]
  rfl

end SegmentTable

end Wellbore
