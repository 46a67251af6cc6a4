import Wellbore.Proofs.Restart.WellHeader
import Wellbore.Proofs.Restart.Rows
import Mathlib.Data.Nat.Basic

/-!
# Records that agree on the blocks of one well

Every read of a record is a row, and every row that is asked for lies in the block of
some well. So two records of one length that agree on a block answer alike for all its
rows, also where the answer is that the row cannot be had: an address that does not fit
64 bits, or a row that ends past the record, depends on the header and the length only.
-/

namespace Wellbore

/-- Two records agree on block `n`, each block being `size` values long. -/
def SameBlock {α : Type} (size n : Nat) (xs ys : Option (Array α)) : Prop :=
  ∀ i, n * size ≤ i → i < (n + 1) * size →
    (xs.bind fun xs => xs[i]?) = ys.bind fun ys => ys[i]?

section
variable {α : Type} {xs ys : Array α} {keyword : Keyword} {n count row width s : Nat}

instance [DecidableEq α] {size : Nat} {xs ys : Option (Array α)} :
    Decidable (SameBlock size n xs ys) :=
  inferInstanceAs (Decidable (∀ i, n * size ≤ i → i < (n + 1) * size → _))

/-- A record that may be missing is missing on both sides, or there with one length. -/
theorem missing_or_sized {xs ys : Option (Array α)} (h : xs.map Array.size = ys.map Array.size) :
    (xs = none ∧ ys = none) ∨ ∃ a b, xs = some a ∧ ys = some b ∧ a.size = b.size := by
  cases xs with
  | none =>
      rw [Option.map_none, eq_comm, Option.map_eq_none_iff] at h
      exact .inl ⟨rfl, h⟩
  | some a =>
      rw [Option.map_some, eq_comm, Option.map_eq_some_iff] at h
      obtain ⟨b, rfl, hlen⟩ := h
      exact .inr ⟨a, b, rfl, rfl, hlen.symm⟩

theorem rowOf_congr {start : Option Nat} (hsize : xs.size = ys.size)
    (hsame : ∀ s, start = some s → ∀ i, s ≤ i → i < s + width → xs[i]? = ys[i]?) :
    rowOf xs keyword start width = rowOf ys keyword start width := by
  unfold rowOf
  rw [hsize]
  cases start with
  | none => rfl
  | some s =>
      have hcut : xs.extract s (s + width) = ys.extract s (s + width) := by
        refine Array.ext_getElem? fun i => ?_
        rw [Array.getElem?_extract, Array.getElem?_extract, hsize]
        split
        next hlt => exact hsame s rfl (s + i) (by omega) (by omega)
        next => rfl
      dsimp only
      split
      next => rfl
      next stop hstop =>
        obtain ⟨-, rfl⟩ := address?_eq_some.mp hstop
        rw [hcut]

/-- The rows of a block stay inside it. -/
theorem row_mem_block (hstart : rowStart? n count row width = some s) (hrow : row < count) :
    n * (count * width) ≤ s ∧ s + width ≤ (n + 1) * (count * width) := by
  obtain ⟨-, -, -, rfl⟩ := rowStart?_eq_some.mp hstart
  rw [← Nat.mul_assoc, ← Nat.mul_assoc]
  refine ⟨Nat.mul_le_mul_right width (by omega), ?_⟩
  have hnext : n * count + row + 1 ≤ (n + 1) * count := by
    rw [Nat.succ_mul]
    omega
  have hle := Nat.mul_le_mul_right width hnext
  rw [Nat.succ_mul] at hle
  exact hle

theorem rowOf_of_sameBlock (hsize : xs.size = ys.size)
    (hsame : SameBlock (count * width) n (some xs) (some ys)) (hrow : row < count) :
    rowOf xs keyword (rowStart? n count row width) width =
      rowOf ys keyword (rowStart? n count row width) width := by
  refine rowOf_congr hsize fun s hs i hlo hhi => ?_
  obtain ⟨hfirst, hlast⟩ := row_mem_block hs hrow
  exact hsame i (by omega) (by omega)

end

namespace GridRecords

/-- Two grids have the same name and wells, and records of the same lengths, the same
ones of which are missing. -/
structure SameShape (r r' : GridRecords) : Prop where
  grid : r.grid = r'.grid
  wellNames : r.wellNames = r'.wellNames
  iwel : r.iwel.size = r'.iwel.size
  icon : r.icon.size = r'.icon.size
  scon : r.scon.map Array.size = r'.scon.map Array.size
  iseg : r.iseg.map Array.size = r'.iseg.map Array.size
  rseg : r.rseg.map Array.size = r'.rseg.map Array.size

/-- Two grids agree on the row of a well and on all its connection rows. -/
structure SameRows (h : ReportHeader) (well : Nat) (r r' : GridRecords) : Prop where
  iwel : SameBlock h.wellWidth well (some r.iwel) (some r'.iwel)
  icon : SameBlock (h.maxConnections * h.connectionWidth) well (some r.icon) (some r'.icon)
  scon : SameBlock (h.maxConnections * h.connectionRealWidth) well r.scon r'.scon

/-- Two grids agree on a block of segment rows. -/
structure SameSegments (h : ReportHeader) (block : Nat) (r r' : GridRecords) : Prop where
  iseg : SameBlock (h.maxSegments * h.segmentWidth) block r.iseg r'.iseg
  rseg : SameBlock (h.maxSegments * h.segmentRealWidth) block r.rseg r'.rseg

variable {h : ReportHeader} {r r' : GridRecords} {well block row : Nat}

instance : Decidable (r.SameShape r') :=
  decidable_of_iff (r.grid = r'.grid ∧ r.wellNames = r'.wellNames ∧
      r.iwel.size = r'.iwel.size ∧ r.icon.size = r'.icon.size ∧
      r.scon.map Array.size = r'.scon.map Array.size ∧
      r.iseg.map Array.size = r'.iseg.map Array.size ∧
      r.rseg.map Array.size = r'.rseg.map Array.size)
    ⟨fun ⟨grid, names, iwel, icon, scon, iseg, rseg⟩ => ⟨grid, names, iwel, icon, scon, iseg, rseg⟩,
      fun s => ⟨s.grid, s.wellNames, s.iwel, s.icon, s.scon, s.iseg, s.rseg⟩⟩

instance : Decidable (SameRows h well r r') :=
  decidable_of_iff (SameBlock h.wellWidth well (some r.iwel) (some r'.iwel) ∧
      SameBlock (h.maxConnections * h.connectionWidth) well (some r.icon) (some r'.icon) ∧
      SameBlock (h.maxConnections * h.connectionRealWidth) well r.scon r'.scon)
    ⟨fun ⟨iwel, icon, scon⟩ => ⟨iwel, icon, scon⟩, fun s => ⟨s.iwel, s.icon, s.scon⟩⟩

instance : Decidable (SameSegments h block r r') :=
  decidable_of_iff (SameBlock (h.maxSegments * h.segmentWidth) block r.iseg r'.iseg ∧
      SameBlock (h.maxSegments * h.segmentRealWidth) block r.rseg r'.rseg)
    ⟨fun ⟨iseg, rseg⟩ => ⟨iseg, rseg⟩, fun s => ⟨s.iseg, s.rseg⟩⟩

theorem SameShape.refl (r : GridRecords) : r.SameShape r := ⟨rfl, rfl, rfl, rfl, rfl, rfl, rfl⟩

theorem SameSegments.refl (h : ReportHeader) (block : Nat) (r : GridRecords) :
    SameSegments h block r r := ⟨fun _ _ _ => rfl, fun _ _ _ => rfl⟩

theorem findWell?_congr (hshape : r.SameShape r') (name : String) :
    r.findWell? name = r'.findWell? name := by
  unfold findWell?
  rw [hshape.wellNames]

theorem wellName_congr (hshape : r.SameShape r') : r.wellName well = r'.wellName well := by
  unfold wellName wells
  rw [hshape.grid, hshape.wellNames]

theorem wellRow_congr (hshape : r.SameShape r') (hrows : SameRows h well r r') :
    r.wellRow h well = r'.wellRow h well := by
  have hrow : rowOf r.iwel .iwel (h.wellStart? well) h.wellWidth =
      rowOf r'.iwel .iwel (h.wellStart? well) h.wellWidth := by
    refine rowOf_congr hshape.iwel fun s hs i hlo hhi => ?_
    obtain ⟨-, rfl⟩ := address?_eq_some.mp hs
    exact hrows.iwel i hlo (by rw [Nat.succ_mul]; exact hhi)
  unfold wellRow
  rw [wellName_congr hshape, hrow]

theorem connectionRow_congr (hshape : r.SameShape r') (hrows : SameRows h well r r')
    (hrow : row < h.maxConnections) : r.connectionRow h well row = r'.connectionRow h well row := by
  unfold connectionRow ReportHeader.connectionStart?
  rw [wellName_congr hshape, rowOf_of_sameBlock hshape.icon hrows.icon hrow]

theorem connectionReals_congr (hshape : r.SameShape r') (hrows : SameRows h well r r')
    (hrow : row < h.maxConnections) :
    r.connectionReals h well row = r'.connectionReals h well row := by
  unfold connectionReals
  rw [wellName_congr hshape]
  rcases missing_or_sized hshape.scon with ⟨hxs, hys⟩ | ⟨xs, ys, hxs, hys, hsize⟩
  · rw [hxs, hys]
  · have hsame := hrows.scon
    rw [hxs, hys] at hsame ⊢
    dsimp only [ReportHeader.connectionRealStart?]
    rw [rowOf_of_sameBlock hsize hsame hrow]

/-! ## Segment rows -/

/-- Only whether the records are there matters, as they hold the blocks of all wells. -/
theorem segmentRecord_congr (well : Nat) (hshape : r.SameShape r') :
    (∃ e, r.segmentRecord well = .error e ∧ r'.segmentRecord well = .error e) ∨
      ∃ xs ys, r.segmentRecord well = .ok xs ∧ r'.segmentRecord well = .ok ys := by
  unfold segmentRecord
  rw [hshape.grid]
  rcases missing_or_sized hshape.iseg with ⟨hxs, hys⟩ | ⟨xs, ys, hxs, hys, -⟩
  · rw [hxs, hys]
    exact .inl ⟨_, rfl, rfl⟩
  · rw [hxs, hys]
    exact .inr ⟨xs, ys, rfl, rfl⟩

theorem segmentRow_congr (hshape : r.SameShape r') (hsame : SameSegments h block r r')
    (hrow : row < h.maxSegments) :
    r.segmentRow h well block row = r'.segmentRow h well block row := by
  unfold segmentRow segmentRecord
  rw [hshape.grid]
  rcases missing_or_sized hshape.iseg with ⟨hxs, hys⟩ | ⟨xs, ys, hxs, hys, hsize⟩
  · rw [hxs, hys]
  · have hblock := hsame.iseg
    rw [hxs, hys] at hblock ⊢
    exact rowOf_of_sameBlock hsize hblock hrow

theorem segmentReals_congr (hshape : r.SameShape r') (hsame : SameSegments h block r r')
    (hrow : row < h.maxSegments) :
    r.segmentReals h well block row = r'.segmentReals h well block row := by
  unfold segmentReals segmentRealRecord
  rw [hshape.grid]
  rcases missing_or_sized hshape.rseg with ⟨hxs, hys⟩ | ⟨xs, ys, hxs, hys, hsize⟩
  · rw [hxs, hys]
  · have hblock := hsame.rseg
    rw [hxs, hys] at hblock ⊢
    exact rowOf_of_sameBlock hsize hblock hrow

end GridRecords

open GridRecords (SameShape SameRows)

theorem WellHeader.decode_congr {h : ReportHeader} {r r' : GridRecords} {well : Nat}
    (hshape : r.SameShape r') (hrows : SameRows h well r r') :
    WellHeader.decode h r well = WellHeader.decode h r' well := by
  unfold WellHeader.decode
  rw [GridRecords.wellName_congr hshape, GridRecords.wellRow_congr hshape hrows, hshape.grid]

end Wellbore
