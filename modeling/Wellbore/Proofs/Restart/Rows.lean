import Wellbore.Restart.Records

/-!
# Rows and fields of a record

Cutting a row out of a record works exactly when 64 bits hold every step of the
address and the record reaches far enough; what is cut out then are the values
from the start of the row on.
-/

namespace Wellbore

section
variable {ε α β : Type}

theorem bind_eq_ok {first : Except ε α} {next : α → Except ε β} {b : β} :
    first >>= next = .ok b ↔ ∃ a, first = .ok a ∧ next a = .ok b := by
  cases first with
  | error e =>
      refine ⟨(fun h => nomatch h), ?_⟩
      rintro ⟨a, h, -⟩
      cases h
  | ok a =>
      refine ⟨fun h => ⟨a, rfl, h⟩, ?_⟩
      rintro ⟨a, h, hb⟩
      cases h
      exact hb

theorem bind_eq_error {first : Except ε α} {next : α → Except ε β} {e : ε} :
    first >>= next = .error e ↔ first = .error e ∨ ∃ a, first = .ok a ∧ next a = .error e := by
  cases first with
  | error e' => simp [bind, Except.bind]
  | ok a => simp [bind, Except.bind]

theorem pure_eq_ok {a b : α} : (pure a : Except ε α) = .ok b ↔ a = b :=
  Except.ok.injEq a b ▸ Iff.rfl

end

/-! ## Record integers -/

theorem fromOne_eq {v : Int32} (hv : Int32.minValue < v) : fromOne v = (v.toInt - 1).toNat := by
  have hmin := Int32.lt_iff_toInt_lt.mp hv
  have hone : (1 : Int32).toInt = 1 := rfl
  have hleast : Int32.minValue.toInt = -2147483648 := rfl
  have hlt := v.toInt_lt
  rw [fromOne, Int32.toInt_sub, hone, Int.bmod_eq_of_le (by omega) (by omega)]

theorem toNat_toInt_ofNat {n : Nat} (hn : n < 2147483648) : (Int32.ofNat n).toInt.toNat = n := by
  rw [Int32.toInt_ofNat_of_lt hn, Int.toNat_natCast]

theorem fromOne_succ {n : Nat} (hn : n < 2147483648) : fromOne (Int32.ofNat n + 1) = n := by
  rw [fromOne, Int32.add_sub_cancel, toNat_toInt_ofNat hn]

theorem succ_inj_of_lt {m n : Nat} (hm : m < 2147483648) (hn : n < 2147483648)
    (h : Int32.ofNat m + 1 = Int32.ofNat n + 1) : m = n := by
  have heq := congrArg fromOne h
  rwa [fromOne_succ hm, fromOne_succ hn] at heq

theorem succ_ne_zero_of_lt {n : Nat} (hn : n < 2147483648) : Int32.ofNat n + 1 ≠ 0 := by
  intro h
  have hminus : Int32.ofNat n = -1 := by
    rw [← Int32.add_sub_cancel (Int32.ofNat n) 1, h]
    rfl
  have hint := congrArg Int32.toInt hminus
  rw [Int32.toInt_ofNat_of_lt hn, show (-1 : Int32).toInt = -1 from rfl] at hint
  omega

/-! ## Addresses -/

theorem address?_eq_some {n m : Nat} : address? n = some m ↔ n < UInt64.size ∧ n = m := by
  unfold address? Word.unsigned64?
  split
  next h => simp [h]
  next h => simp [h]

theorem rowStart?_eq_some {block rowsPerBlock row width start : Nat} :
    rowStart? block rowsPerBlock row width = some start ↔
      block * rowsPerBlock < UInt64.size ∧ block * rowsPerBlock + row < UInt64.size ∧
        (block * rowsPerBlock + row) * width < UInt64.size ∧
        (block * rowsPerBlock + row) * width = start := by
  unfold rowStart?
  constructor
  · intro h
    obtain ⟨first, hfirst, h⟩ := Option.bind_eq_some_iff.mp h
    obtain ⟨nth, hnth, h⟩ := Option.bind_eq_some_iff.mp h
    obtain ⟨hblock, rfl⟩ := address?_eq_some.mp hfirst
    obtain ⟨hrow, rfl⟩ := address?_eq_some.mp hnth
    obtain ⟨hstart, heq⟩ := address?_eq_some.mp h
    exact ⟨hblock, hrow, hstart, heq⟩
  · rintro ⟨hblock, hrow, hstart, heq⟩
    rw [address?_eq_some.mpr ⟨hblock, rfl⟩, Option.bind_eq_bind, Option.bind_some,
      address?_eq_some.mpr ⟨hrow, rfl⟩, Option.bind_some]
    exact address?_eq_some.mpr ⟨hstart, heq⟩

/-- Where rows have a width, an address that fits was reached by steps that fit. -/
theorem rowStart?_of_fits {block rowsPerBlock row width : Nat} (hwidth : 0 < width)
    (hfits : (block * rowsPerBlock + row) * width < UInt64.size) :
    rowStart? block rowsPerBlock row width = some ((block * rowsPerBlock + row) * width) := by
  have hself : block * rowsPerBlock + row ≤ (block * rowsPerBlock + row) * width :=
    Nat.le_mul_of_pos_right _ hwidth
  rw [rowStart?_eq_some]
  exact ⟨by omega, by omega, hfits, rfl⟩

/-! ## Rows -/

theorem rowOf_eq_ok {α : Type} {record row : Array α} {keyword : Keyword}
    {start : Option Nat} {width : Nat} :
    rowOf record keyword start width = .ok row ↔
      ∃ s, start = some s ∧ s + width < UInt64.size ∧ s + width ≤ record.size ∧
        record.extract s (s + width) = row := by
  unfold rowOf
  cases start with
  | none => simp
  | some s =>
      dsimp only
      cases hstop : address? (s + width) with
      | none =>
          have hbig : ¬ s + width < UInt64.size := fun h => by
            rw [address?_eq_some.mpr ⟨h, rfl⟩] at hstop
            cases hstop
          simp [hbig]
      | some stop =>
          obtain ⟨hsmall, rfl⟩ := address?_eq_some.mp hstop
          by_cases hlen : s + width ≤ record.size
          · simp [hsmall, hlen]
          · simp [hlen]

theorem fieldOf_eq_ok {α : Type} {row : Array α} {keyword : Keyword} {column : Nat} {a : α} :
    fieldOf row keyword column = .ok a ↔ row[column]? = some a := by
  unfold fieldOf
  cases row[column]? with
  | none => simp
  | some b => simp

namespace GridRecords

variable {r : GridRecords} {h : ReportHeader} {well : Nat} {name : String}

theorem wellName_eq_ok : r.wellName well = .ok name ↔ r.wellNames[well]? = some name := by
  unfold wellName
  cases r.wellNames[well]? with
  | none => simp
  | some b => simp

theorem findWell?_eq_some : r.findWell? name = some well ↔
    r.wellNames[well]? = some name ∧ ∀ k < well, r.wellNames[k]? ≠ some name := by
  rw [findWell?, List.findIdx?_eq_some_iff_getElem]
  constructor
  · rintro ⟨hlt, hget, hbefore⟩
    refine ⟨List.getElem?_eq_some_iff.mpr ⟨hlt, beq_iff_eq.mp hget⟩, fun k hk heq => ?_⟩
    exact hbefore k hk (beq_iff_eq.mpr (List.getElem?_eq_some_iff.mp heq).2)
  · rintro ⟨hget, hbefore⟩
    obtain ⟨hlt, heq⟩ := List.getElem?_eq_some_iff.mp hget
    refine ⟨hlt, beq_iff_eq.mpr heq, fun k hk hname => hbefore k hk ?_⟩
    exact List.getElem?_eq_some_iff.mpr ⟨Nat.lt_trans hk hlt, beq_iff_eq.mp hname⟩

end GridRecords

end Wellbore
