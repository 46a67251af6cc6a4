import Mathlib.Algebra.Group.Nat.Defs
import Mathlib.Data.Option.Basic
import Wellbore.Decimal.Text
import Wellbore.Time.Reader

/-!
# Digits written and read

Numbers are written in three places (times, integers of a value, the digits of a
real) and read in two, but always as a run of decimal digits, with or without zeros
in front. `Spells` says what such a run stands for. A reader takes a run off the
front of a text, so what it finds is the run exactly if the text goes on with
something else than a digit.
-/

namespace Wellbore

namespace Decimal

/-- Digits that stand for a number. -/
structure Spells (ds : List Char) (n : Nat) : Prop where
  digits : ∀ c ∈ ds, c.isDigit = true
  value : Nat.ofDigitChars 10 ds 0 = n

/-- No digit comes first. -/
def DigitsEnd (cs : List Char) : Prop := ∀ c ∈ cs.head?, c.isDigit = false

theorem digitsEnd_nil : DigitsEnd [] := fun _ hc => by cases hc

theorem digitsEnd_cons {c : Char} {cs : List Char} (h : c.isDigit = false) :
    DigitsEnd (c :: cs) := by
  rintro d hd
  obtain rfl : c = d := by simpa using hd
  exact h

theorem DigitsEnd.take {cs : List Char} (h : DigitsEnd cs) (n : Nat) : DigitsEnd (cs.take n) := by
  intro c hc
  rw [List.head?_take] at hc
  split at hc
  · cases hc
  · exact h c hc

theorem DigitsEnd.takeWhile_eq_nil {cs : List Char} (h : DigitsEnd cs) :
    cs.takeWhile Char.isDigit = [] := by
  cases cs with
  | nil => rfl
  | cons c cs =>
      rw [List.takeWhile_cons_of_neg]
      rw [h c rfl]
      exact Bool.false_ne_true

theorem DigitsEnd.dropWhile_eq_self {cs : List Char} (h : DigitsEnd cs) :
    cs.dropWhile Char.isDigit = cs := by
  have hsplit := List.takeWhile_append_dropWhile (p := Char.isDigit) (l := cs)
  rwa [h.takeWhile_eq_nil, List.nil_append] at hsplit

/-! ## Runs of digits -/

theorem spells_toDigits (n : Nat) : Spells (Nat.toDigits 10 n) n where
  digits _ hc := Nat.isDigit_of_mem_toDigits (by decide) (by decide) hc
  value := Nat.ofDigitChars_ten_toDigits

theorem toList_pushn (c : Char) (n : Nat) : ("".pushn c n).toList = List.replicate n c := by
  rw [String.pushn_eq_repeat_push]
  induction n with
  | zero => rfl
  | succ n ih => rw [Nat.repeat, String.toList_push, ih, List.replicate_succ']

theorem toList_padded (width n : Nat) : (padded width n).toList =
    List.replicate (width - (Nat.toDigits 10 n).length) '0' ++ Nat.toDigits 10 n := by
  have htext : (toString n).toList = Nat.toDigits 10 n := Nat.toList_repr
  rw [padded, String.toList_append, toList_pushn, ← String.length_toList, htext]

theorem length_padded {width n : Nat} (hwidth : 0 < width) (h : n < 10 ^ width) :
    (padded width n).toList.length = width := by
  have hle := (Nat.length_toDigits_le_iff (by decide : 1 < 10) hwidth).mpr h
  rw [toList_padded, List.length_append, List.length_replicate]
  omega

namespace Spells

variable {ds rest : List Char} {n : Nat}

theorem zeros_append (h : Spells ds n) (k : Nat) : Spells (List.replicate k '0' ++ ds) n where
  digits c hc := by
    rcases List.mem_append.mp hc with hc | hc
    · rw [List.eq_of_mem_replicate hc]
      rfl
    · exact h.digits c hc
  value := by
    rw [Nat.ofDigitChars_append, Nat.ofDigitChars_replicate_zero, Nat.mul_zero, h.value]

theorem append_zeros (h : Spells ds n) (k : Nat) :
    Spells (ds ++ List.replicate k '0') (10 ^ k * n) where
  digits c hc := by
    rcases List.mem_append.mp hc with hc | hc
    · exact h.digits c hc
    · rw [List.eq_of_mem_replicate hc]
      rfl
  value := by rw [Nat.ofDigitChars_append, Nat.ofDigitChars_replicate_zero, h.value]

theorem takeWhile_append (h : Spells ds n) (hrest : DigitsEnd rest) :
    (ds ++ rest).takeWhile Char.isDigit = ds := by
  rw [List.takeWhile_append_of_pos h.digits, hrest.takeWhile_eq_nil, List.append_nil]

theorem dropWhile_append (h : Spells ds n) (hrest : DigitsEnd rest) :
    (ds ++ rest).dropWhile Char.isDigit = rest := by
  rw [List.dropWhile_append_of_pos h.digits, hrest.dropWhile_eq_self]

/-- The value as every reader of digits adds it up. -/
theorem foldl_eq (h : Spells ds n) :
    ds.foldl (fun n c => n * 10 + (c.toNat - '0'.toNat)) 0 = n := by
  rw [← h.value, Nat.ofDigitChars_eq_foldl]
  simp only [Nat.mul_comm]

theorem lt_pow (h : Spells ds n) : n < 10 ^ ds.length := by
  rw [← h.value]
  have hdigits := h.digits
  clear h
  induction ds with
  | nil => exact Nat.one_pos
  | cons c ds ih =>
      have hc : c.toNat - '0'.toNat ≤ 9 :=
        Nat.sub_le_sub_right (Char.isDigit_iff_toNat.mp (hdigits c List.mem_cons_self)).2 _
      have hds := ih fun d hd => hdigits d (List.mem_cons_of_mem c hd)
      rw [Nat.ofDigitChars_cons, Nat.mul_zero, Nat.zero_add, Nat.ofDigitChars_eq_ofDigitChars_zero,
        List.length_cons, Nat.pow_succ]
      have hle := Nat.mul_le_mul_left (10 ^ ds.length) hc
      omega

end Spells

theorem spells_padded (width n : Nat) : Spells (padded width n).toList n := by
  rw [toList_padded]
  exact (spells_toDigits n).zeros_append _

end Decimal

/-! ## Reading a run -/

open Decimal

theorem Instant.digits?_append {ds rest : List Char} {n least most : Nat} (h : Spells ds n)
    (hleast : least ≤ ds.length) (hmost : ds.length ≤ most) (hrest : DigitsEnd rest) :
    digits? least most (ds ++ rest) = some (n, rest) := by
  have hrun : ((ds ++ rest).take most).takeWhile Char.isDigit = ds := by
    rw [List.take_append, List.take_of_length_le hmost, h.takeWhile_append (hrest.take _)]
  unfold digits?
  simp only [hrun, h.foldl_eq, List.drop_left]
  rw [if_neg (by omega)]

end Wellbore
