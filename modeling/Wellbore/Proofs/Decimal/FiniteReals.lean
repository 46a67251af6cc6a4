import Mathlib

/-!
# Reals that stay finite

Integers of 64 bits, their negatives, and their products and quotients with powers of
ten are rounded to reals, and as long as a product does not come out infinite, all of
these are finite. Nothing has to be known of the rounding for this but how far it can
raise an exponent. `Below` bounds the parts of an unpacked real from above and `Above`
those of a divisor from below; every step from the operands to the packed result keeps
a bound of this kind, with more room than is needed.
-/

namespace Wellbore.Decimal

open Float.Model Float.Model.UnpackedFloat

variable {m k : Nat} {e c : Int} {f g : UnpackedFloat} {x : Float}

/-- A real that is finite, with a mantissa below `2 ^ k` and an exponent of at most `c`. -/
def Below (k : Nat) (c : Int) : UnpackedFloat → Prop
  | .finite _ m e _ => m < 2 ^ k ∧ e ≤ c
  | .zero _ => True
  | _ => False

/-- A real that is not zero, with an exponent of at least `c`. -/
def Above (c : Int) : UnpackedFloat → Prop
  | .finite _ m e _ => m < 2 ^ 53 ∧ c ≤ e
  | _ => False

instance (c : Int) : DecidablePred (Above c)
  | .finite _ m e _ => inferInstanceAs (Decidable (m < 2 ^ 53 ∧ c ≤ e))
  | .zero _ | .infinity _ | .notANumber => inferInstanceAs (Decidable False)

theorem Below.mono {c' : Int} (h : Below k c f) (hc : c ≤ c') : Below k c' f := by
  cases f with
  | finite => exact ⟨h.1, Int.le_trans h.2 hc⟩
  | _ => exact h

theorem Below.isFinite (h : Below k c f) : f.isFinite = true := by
  cases f with
  | zero | finite => rfl
  | infinity | notANumber => cases h

theorem Above.isFinite (h : Above c f) : f.isFinite = true := by
  cases f with
  | finite => rfl
  | zero | infinity | notANumber => cases h

/-! ## Packing -/

/-- The bounds of an unpacked real are read off its exponent bits, the last value of which
stands for what is not finite. -/
theorem below_unpack_of_le {b : BitVec Format.binary64.numBits}
    (h : (unpackExponent b).toNat ≤ (c + 1075).toNat) (hc : c ≤ 971) (hleast : -1074 ≤ c) :
    Below 53 c (UnpackedFloat.unpack Format.binary64 b) := by
  have hbias : Format.binary64.exponentBias = 1023 := rfl
  have hfinite : unpackExponent b ≠ -1#_ := by
    intro heq
    rw [heq] at h
    have htop : (-1#11).toNat ≤ (c + 1075).toNat := h
    have hlast : (-1#11).toNat = 2047 := rfl
    omega
  unfold UnpackedFloat.unpack
  rw [if_neg hfinite, hbias]
  split
  next hzero =>
    split
    · trivial
    · refine ⟨Nat.lt_of_lt_of_le (BitVec.isLt _) (by decide), ?_⟩
      rw [hzero]
      show (0 : Int) - (1023 + 52) + 1 ≤ c
      omega
  next =>
    refine ⟨BitVec.isLt _, ?_⟩
    dsimp only
    omega

theorem below_unpack {b : BitVec Format.binary64.numBits}
    (h : (UnpackedFloat.unpack Format.binary64 b).isFinite = true) :
    Below 53 971 (UnpackedFloat.unpack Format.binary64 b) := by
  refine below_unpack_of_le ?_ (by decide) (by decide)
  have hlt : (unpackExponent b).toNat < 2048 := BitVec.isLt _
  have hne : (unpackExponent b).toNat ≠ 2047 := by
    intro heq
    have htop : unpackExponent b = -1#_ := BitVec.eq_of_toNat_eq heq
    unfold UnpackedFloat.unpack at h
    rw [if_pos htop] at h
    split at h <;> cases h
  exact Nat.le_of_lt_succ (Nat.lt_of_le_of_ne (Nat.le_of_lt_succ hlt) hne)

theorem below_unpack_pack (h : Below k c f) (hc : c ≤ 971) (hleast : -1074 ≤ c) :
    Below 53 c (UnpackedFloat.unpack Format.binary64 (UnpackedFloat.pack Format.binary64 f)) := by
  have hbias : Format.binary64.exponentBias = 1023 := rfl
  refine below_unpack_of_le ?_ hc hleast
  cases f with
  | infinity | notANumber => cases h
  | zero s => cases s <;> exact Nat.zero_le _
  | finite s m e hm =>
      have he : e ≤ c := h.2
      unfold UnpackedFloat.pack
      dsimp only
      rw [hbias, if_neg (by omega)]
      split
      · rw [unpackExponent_packComponents, BitVec.toNat_ofNat]
        exact Nat.le_trans (Nat.mod_le _ _) (by omega)
      · rw [unpackExponent_packComponents]
        exact Nat.zero_le _

/-- Packing can take a real past the largest one, but never to something that is no number. -/
theorem isFinite_or_isInf_pack (h : f.isFinite = true) :
    (UnpackedFloat.unpack Format.binary64
        (UnpackedFloat.pack Format.binary64 f)).isFinite = true ∨
      (UnpackedFloat.unpack Format.binary64
        (UnpackedFloat.pack Format.binary64 f)).isInf = true := by
  cases f with
  | infinity | notANumber => cases h
  | zero s => cases s <;> exact .inl rfl
  | finite s m e hm =>
      rcases Int.lt_or_le 971 e with hlarge | hsmall
      · have hover : 2 ^ Format.binary64.exponentBits ≤ (e + Format.binary64.exponentBias +
            Format.binary64.mantissaBitsWithoutImplicit).toNat + 1 := by
          show 2048 ≤ (e + 1023 + 52).toNat + 1
          omega
        have hpack : UnpackedFloat.pack Format.binary64 (.finite s m e hm) =
            packedInfinity Format.binary64 s := if_pos hover
        rw [hpack]
        cases s <;> exact .inr rfl
      · have hbelow : Below (m.log2 + 1) (max e (-1074)) (.finite s m e hm) :=
          ⟨Nat.lt_log2_self, Int.le_max_left _ _⟩
        exact .inl (below_unpack_pack hbelow (by omega) (Int.le_max_right _ _)).isFinite

/-! ## Rounding -/

theorem targetExponent_binary64 (e : Int) :
    Format.binary64.targetExponent e = max (e - 53) (-1074) := rfl

theorem mantissa_shiftRight_le (em : ExtendedMantissa) (n : Nat) :
    (em >>> n).mantissa ≤ em.mantissa := by
  show (n.repeat ExtendedMantissa.shiftRightOne em).mantissa ≤ em.mantissa
  induction n with
  | zero => exact Nat.le_refl _
  | succ n ih => exact Nat.le_trans (Nat.div_le_self _ 2) ih

theorem roundedMantissa_le (em : ExtendedMantissa) : em.roundedMantissa ≤ em.mantissa + 1 := by
  unfold ExtendedMantissa.roundedMantissa
  generalize em.accuracy = a
  cases a with
  | exact => exact Nat.le_succ _
  | inexact o => cases o <;> simp only [Accuracy.roundToNearestEven] <;> omega

theorem mantissa_shiftToTargetExponent_le (a : Accuracy) :
    (shiftToTargetExponent Format.binary64 m e a).1.mantissa ≤ m := by
  refine Nat.le_trans (mantissa_shiftRight_le _ _) ?_
  cases a with
  | exact => exact Nat.le_refl _
  | inexact o => cases o <;> exact Nat.le_refl _

theorem exponent_shiftToTargetExponent_le (a : Accuracy) (hm : m < 2 ^ k) (hk : 0 < k)
    (he : e ≤ c) (hleast : -1074 ≤ c) :
    (shiftToTargetExponent Format.binary64 m e a).2 ≤ c + k := by
  have hlog : m.log2 < k := by
    rcases Nat.eq_zero_or_pos m with rfl | hpos
    · exact hk
    · exact (Nat.log2_lt (Nat.ne_of_gt hpos)).mpr hm
  simp only [shiftToTargetExponent, shiftToExponent, targetExponent_binary64, totalExponent]
  omega

/-- Rounding shifts twice, the second time because it may have added a digit. -/
theorem below_roundWithAccuracy {s : Sign} {a : Accuracy} (hm : m + 1 < 2 ^ k) (he : e ≤ c)
    (hleast : -1074 ≤ c) :
    Below k (c + 2 * k) (roundWithAccuracy Format.binary64 s m e a) := by
  have hk : 0 < k := by
    rcases Nat.eq_zero_or_pos k with rfl | hk
    · rw [Nat.pow_zero] at hm
      omega
    · exact hk
  have hfirst := exponent_shiftToTargetExponent_le a (Nat.lt_of_succ_lt hm) hk he hleast
  have hrounded :
      (shiftToTargetExponent Format.binary64 m e a).1.roundedMantissa < 2 ^ k := by
    have hone := roundedMantissa_le (shiftToTargetExponent Format.binary64 m e a).1
    have hshift := mantissa_shiftToTargetExponent_le (m := m) (e := e) a
    omega
  have hsecond := exponent_shiftToTargetExponent_le .exact hrounded hk hfirst (by omega)
  unfold roundWithAccuracy
  dsimp only
  split
  · trivial
  · refine ⟨Nat.lt_of_le_of_lt (mantissa_shiftToTargetExponent_le _) hrounded, ?_⟩
    exact Int.le_trans hsecond (by omega)

theorem below_round {s : Sign} (hm : m < 2 ^ 53) :
    Below 107 214 (UnpackedFloat.round Format.binary64 s m 0) := by
  have hshift : (0 - Format.binary64.targetExponent (totalExponent m 0)).toNat ≤ 53 := by
    rw [targetExponent_binary64, totalExponent]
    omega
  have hwide := Nat.mul_lt_mul_of_lt_of_le hm
    (Nat.pow_le_pow_right (n := 2) (by decide) hshift) (by decide)
  unfold UnpackedFloat.round decreaseExponent
  refine below_roundWithAccuracy (k := 107) (c := 0) ?_ (by omega) (by decide)
  rw [Nat.shiftLeft_eq]
  omega

theorem below_normalize {n : Nat} (h : n < 2 ^ 53) :
    Below 107 214 (UnpackedFloat.normalize Format.binary64 n 0 .positive) := by
  unfold UnpackedFloat.normalize
  split
  · exact below_round (by omega)
  · trivial
  · exact below_round (by omega)

theorem below_mul (hf : Below 53 214 f) (hg : Below 53 0 g) :
    Below 107 428 (UnpackedFloat.mul Format.binary64 f g) := by
  cases f <;> cases g <;> try trivial
  case finite.finite s m e _ s' m' e' _ =>
    have hwide := Nat.mul_lt_mul'' hf.1 hg.1
    have he : e + e' ≤ 214 := Int.add_le_add hf.2 hg.2
    exact below_roundWithAccuracy (k := 107) (c := 214) (by omega) he (by decide)

/-! ## Integers -/

/-- A whole number that a mantissa holds is multiplied by one. -/
theorem below_ofNat_of_lt {n : Nat} (h : n < 2 ^ 53) :
    Below 53 428 (Float.ofNat n).toModel.unpack := by
  have hone : (Float.Model.ofBits 0x3FF0000000000000).unpack =
      .finite .positive (2 ^ 52) (-52) (by decide) := rfl
  have hbelow : Below 53 0 (Float.Model.ofBits 0x3FF0000000000000).unpack :=
    hone ▸ ⟨by decide, by decide⟩
  have hn : n.toUInt64.toNat = n :=
    UInt64.toNat_ofNat_of_lt (Nat.lt_of_lt_of_le h (by decide))
  have hfactor : Below 53 214 (Float.Model.ofUInt64 n.toUInt64).unpack := by
    show Below 53 214 (UnpackedFloat.unpack Format.binary64 (UnpackedFloat.pack Format.binary64
      (UnpackedFloat.normalize Format.binary64 n.toUInt64.toNat 0 .positive)))
    rw [hn]
    exact below_unpack_pack (below_normalize h) (by decide) (by decide)
  show Below 53 428 (Float.ofScientific n false 0).toModel.unpack
  rw [Float.ofScientific, dif_pos ⟨h, by decide⟩]
  exact below_unpack_pack (below_mul hfactor hbelow) (by decide) (by decide)

theorem below_ofScientific {n : Nat} (h : n < UInt64.size) :
    Below 118 236 (UnpackedFloat.ofScientific Format.binary64 n 0) := by
  have hbits : (2 : Int) ^ Format.binary64.exponentBits = 2048 := rfl
  have hwide : n <<< Format.binary64.mantissaBits * 10 ^ (0 : Int).toNat + 1 < 2 ^ 118 := by
    have hmantissa : Format.binary64.mantissaBits = 53 := rfl
    have hsize : UInt64.size = 18446744073709551616 := rfl
    rw [hmantissa, Nat.shiftLeft_eq, Int.toNat_zero, Nat.pow_zero, Nat.mul_one]
    omega
  unfold UnpackedFloat.ofScientific
  rw [hbits]
  split
  · trivial
  · rw [if_neg (by decide), if_neg (by omega), if_pos (Int.le_refl 0)]
    unfold UnpackedFloat.mul
    dsimp only
    -- Left as it is, the wide mantissa would be computed with.
    generalize n <<< Format.binary64.mantissaBits * 10 ^ (0 : Int).toNat = wide at hwide ⊢
    have he : -(Format.binary64.mantissaBits : Int) + 0 ≤ 0 := by decide
    exact below_roundWithAccuracy hwide he (by decide)

theorem below_ofNat {n : Nat} (h : n < UInt64.size) :
    Below 53 428 (Float.ofNat n).toModel.unpack := by
  rcases Nat.lt_or_ge n (2 ^ 53) with hn | hn
  · exact below_ofNat_of_lt hn
  · show Below 53 428 (Float.ofScientific n false 0).toModel.unpack
    rw [Float.ofScientific, dif_neg fun hsmall => Nat.not_lt.mpr hn hsmall.1]
    exact (below_unpack_pack (below_ofScientific h) (by decide) (by decide)).mono (by decide)

theorem isFinite_ofNat {n : Nat} (h : n < UInt64.size) : (Float.ofNat n).isFinite = true :=
  (below_ofNat h).isFinite

theorem isFinite_neg (h : x.isFinite = true) : (-x).isFinite = true := by
  have hbelow : Below 53 971 x.toModel.unpack := below_unpack h
  have hneg : Below 53 971 x.toModel.unpack.neg := by
    cases hx : x.toModel.unpack <;> rw [hx] at hbelow <;> exact hbelow
  exact (below_unpack_pack hneg (by decide) (by decide)).isFinite

/-! ## Products and quotients -/

theorem isFinite_roundWithAccuracy {s : Sign} {a : Accuracy} :
    (roundWithAccuracy Format.binary64 s m e a).isFinite = true := by
  unfold roundWithAccuracy
  dsimp only
  split <;> rfl

theorem isFinite_unpacked_mul (hf : f.isFinite = true) (hg : g.isFinite = true) :
    (UnpackedFloat.mul Format.binary64 f g).isFinite = true := by
  cases f with
  | infinity | notANumber => cases hf
  | zero =>
      cases g with
      | infinity | notANumber => cases hg
      | zero | finite => rfl
  | finite =>
      cases g with
      | infinity | notANumber => cases hg
      | zero => rfl
      | finite => exact isFinite_roundWithAccuracy

theorem isFinite_mul {y : Float} (hx : x.isFinite = true) (hy : y.isFinite = true)
    (hinf : (x * y).isInf = false) : (x * y).isFinite = true := by
  rcases isFinite_or_isInf_pack (isFinite_unpacked_mul hx hy) with h | h
  · exact h
  · exact absurd (hinf.symm.trans h) Bool.false_ne_true

/-- A mantissa is widened before it is divided, so that the quotient has enough digits. -/
theorem below_divCore {s : Sign} {m' : Nat} {e' least : Int} (hm : m < 2 ^ 53) (he : e ≤ c)
    (hm' : m' < 2 ^ 53) (hpos : 0 < m') (he' : least ≤ e') (hleast : -1074 ≤ c - least) :
    Below 159 (c - least + 318) (roundWithAccuracy Format.binary64 s
      (divCore Format.binary64 m e m' e').1 (divCore Format.binary64 m e m' e').2.1
      (divCore Format.binary64 m e m' e').2.2) := by
  have hlog : m'.log2 < 53 := (Nat.log2_lt (Nat.ne_of_gt hpos)).mpr hm'
  obtain ⟨target, htarget⟩ : ∃ target, target = min (e - e') (Format.binary64.targetExponent
    (totalExponent m e - totalExponent m' e')) := ⟨_, rfl⟩
  have hmost : target ≤ e - e' := htarget ▸ Int.min_le_left _ _
  have hshift : (e - e' - target).toNat ≤ 105 := by
    rw [targetExponent_binary64, totalExponent, totalExponent] at htarget
    omega
  have hwide : m * 2 ^ (e - e' - target).toNat < 2 ^ 53 * 2 ^ 105 :=
    Nat.mul_lt_mul_of_lt_of_le hm (Nat.pow_le_pow_right (n := 2) (by decide) hshift) (by decide)
  have hquotient := Nat.div_le_self (m * 2 ^ (e - e' - target).toNat) m'
  unfold divCore
  dsimp only
  rw [← htarget, Nat.shiftLeft_eq]
  exact below_roundWithAccuracy (k := 159) (c := c - least) (by omega) (by omega) hleast

theorem below_div {least : Int} (hf : Below 53 c f) (hg : Above least g)
    (hleast : -1074 ≤ c - least) :
    Below 159 (c - least + 318) (UnpackedFloat.div Format.binary64 f g) := by
  cases g with
  | zero | infinity | notANumber => cases hg
  | finite _ m' e' hpos =>
      cases f with
      | infinity | notANumber => cases hf
      | zero => trivial
      | finite => exact below_divCore hf.1 hf.2 hg.1 hpos hg.2 hleast

theorem below_quotient {y : Float} {least : Int} (hx : Below 53 c x.toModel.unpack)
    (hy : Above least y.toModel.unpack) (hleast : -1074 ≤ c - least)
    (hmost : c - least + 318 ≤ 971) :
    Below 53 (c - least + 318) (x / y).toModel.unpack :=
  below_unpack_pack (below_div hx hy hleast) hmost (by omega)

end Wellbore.Decimal
