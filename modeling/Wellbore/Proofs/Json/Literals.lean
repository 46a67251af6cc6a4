import Wellbore.Proofs.Decimal.Digits
import Wellbore.Json.Text
import Wellbore.Json.Reader

/-!
# Numbers and strings in a text

A literal is read off the front of a text that goes on behind it. A number ends where
nothing follows that could go on with it, and then what it stands for does not depend
on what follows (`numberText?_append`); a string ends with its closing quote. On these
terms an integer and a string are read as they were written. Of a real this cannot
be said, for its digits are not put together exactly: `Lossless` says it of one.
-/

namespace Wellbore.Json

open Decimal

variable {cs rest r : List Char} {t : NumberText}

/-! ## Number literals -/

/-- The end of a number literal: nothing that could go on with it comes first. -/
def NumberEnd (cs : List Char) : Prop :=
  ∀ c ∈ cs.head?, c.isDigit = false ∧ c ≠ '.' ∧ c ≠ 'e' ∧ c ≠ 'E'

theorem numberEnd_nil : NumberEnd [] := fun _ hc => by cases hc

theorem NumberEnd.digitsEnd (h : NumberEnd rest) : DigitsEnd rest := fun c hc => (h c hc).1

theorem digitRun_append (hrest : DigitsEnd rest) :
    digitRun (cs ++ rest) = ((digitRun cs).1, (digitRun cs).2 ++ rest) := by
  unfold digitRun
  rw [Prod.mk.injEq]
  induction cs with
  | nil => exact ⟨hrest.takeWhile_eq_nil, hrest.dropWhile_eq_self⟩
  | cons c cs ih =>
      by_cases hc : c.isDigit = true
      · simp only [List.cons_append, List.takeWhile_cons_of_pos hc, List.dropWhile_cons_of_pos hc]
        exact ⟨congrArg (c :: ·) ih.1, ih.2⟩
      · simp only [List.cons_append, List.takeWhile_cons_of_neg hc, List.dropWhile_cons_of_neg hc]
        trivial

theorem signPart_of_ne {c : Char} (h : c ≠ '-') : signPart (c :: cs) = (false, c :: cs) := by
  unfold signPart
  split
  next heq => cases heq; exact absurd rfl h
  next => rfl

theorem signPart_append (hcs : cs ≠ []) :
    signPart (cs ++ rest) = ((signPart cs).1, (signPart cs).2 ++ rest) := by
  cases cs with
  | nil => exact absurd rfl hcs
  | cons c cs =>
      by_cases hc : c = '-'
      · rw [hc]
        rfl
      · rw [List.cons_append, signPart_of_ne hc, signPart_of_ne hc]
        rfl

theorem fractionPart?_of_ne (h : ∀ c ∈ cs.head?, c ≠ '.') :
    fractionPart? cs = some (none, cs) := by
  unfold fractionPart?
  split
  next => exact absurd rfl (h '.' rfl)
  next => rfl

theorem fractionPart?_append {f : Option (List Char)} (h : fractionPart? cs = some (f, r))
    (hrest : NumberEnd rest) : fractionPart? (cs ++ rest) = some (f, r ++ rest) := by
  unfold fractionPart? at h
  split at h
  next cs =>
    rw [List.cons_append, fractionPart?, digitRun_append hrest.digitsEnd]
    obtain ⟨hdigits, heq⟩ := Option.ite_none_left_eq_some.mp h
    cases heq
    exact if_neg hdigits
  next hpoint =>
    cases h
    refine fractionPart?_of_ne fun c hc => ?_
    cases cs with
    | nil => exact (hrest c hc).2.1
    | cons d cs =>
      cases hc
      rintro rfl
      exact hpoint cs rfl

theorem exponentSign_of_ne {c : Char} (h : c ≠ '+') :
    exponentSign (c :: cs) = signPart (c :: cs) := by
  unfold exponentSign
  split
  next heq => cases heq; exact absurd rfl h
  next => rfl

theorem exponentSign_append (hcs : cs ≠ []) :
    exponentSign (cs ++ rest) = ((exponentSign cs).1, (exponentSign cs).2 ++ rest) := by
  cases cs with
  | nil => exact absurd rfl hcs
  | cons c cs =>
      by_cases hc : c = '+'
      · rw [hc]
        rfl
      · rw [exponentSign_of_ne hc, ← signPart_append hcs]
        exact exponentSign_of_ne hc

theorem exponentDigits?_append {e : Option (Bool × List Char)}
    (h : exponentDigits? cs = some (e, r)) (hrest : NumberEnd rest) :
    exponentDigits? (cs ++ rest) = some (e, r ++ rest) := by
  have hcs : cs ≠ [] := by
    rintro rfl
    cases h
  obtain ⟨hdigits, heq⟩ := Option.ite_none_left_eq_some.mp h
  cases heq
  rw [exponentDigits?, exponentSign_append hcs]
  dsimp only
  rw [digitRun_append hrest.digitsEnd]
  exact if_neg hdigits

theorem exponentPart?_of_ne (h : ∀ c ∈ cs.head?, c ≠ 'e' ∧ c ≠ 'E') :
    exponentPart? cs = some (none, cs) := by
  unfold exponentPart?
  split
  next => exact absurd rfl (h 'e' rfl).1
  next => exact absurd rfl (h 'E' rfl).2
  next => rfl

theorem exponentPart?_append {e : Option (Bool × List Char)} (h : exponentPart? cs = some (e, r))
    (hrest : NumberEnd rest) : exponentPart? (cs ++ rest) = some (e, r ++ rest) := by
  unfold exponentPart? at h
  split at h
  next => exact exponentDigits?_append h hrest
  next => exact exponentDigits?_append h hrest
  next he hE =>
    cases h
    refine exponentPart?_of_ne fun c hc => ?_
    cases cs with
    | nil => exact (hrest c hc).2.2
    | cons d cs =>
      cases hc
      constructor
      · rintro rfl
        exact he cs rfl
      · rintro rfl
        exact hE cs rfl

/-- What follows a number does not change it. -/
theorem numberText?_append (h : numberText? cs = some (t, [])) (hrest : NumberEnd rest) :
    numberText? (cs ++ rest) = some (t, rest) := by
  have hcs : cs ≠ [] := by
    rintro rfl
    cases h
  unfold numberText? at h ⊢
  rw [signPart_append hcs]
  dsimp only at h ⊢
  rw [digitRun_append hrest.digitsEnd]
  simp only [Option.bind_eq_bind, Option.bind_eq_some_iff, Prod.exists] at h ⊢
  obtain ⟨u, hwhole, fraction, cs', hfraction, exponent, cs'', hexponent, heq⟩ := h
  cases heq
  exact ⟨u, hwhole, fraction, _, fractionPart?_append hfraction hrest, exponent, _,
    exponentPart?_append hexponent hrest, rfl⟩

/-- A number literal that stands for a value. -/
def Literal (cs : List Char) (v : Json) : Prop :=
  ∃ t, numberText? cs = some (t, []) ∧ t.value = v

/-- The written form of a real is a number literal that stands for it. -/
def Lossless (x : Float) : Prop := Literal (realText x).toList (.real x)

theorem lossless_iff {x : Float} : Lossless x ↔
    ∃ p ∈ numberText? (realText x).toList, p.2 = [] ∧ p.1.int? = none ∧ p.1.real? = some x := by
  constructor
  · rintro ⟨t, ht, hvalue⟩
    refine ⟨(t, []), ht, rfl, ?_⟩
    unfold NumberText.value at hvalue
    split at hvalue
    next => cases hvalue
    next hint =>
      split at hvalue
      next hreal =>
        cases hvalue
        exact ⟨hint, hreal⟩
      next => cases hvalue
  · rintro ⟨⟨t, _⟩, ht, rfl, hint, hreal⟩
    refine ⟨t, ht, ?_⟩
    simp only [NumberText.value, hint, hreal]

instance (x : Float) : Decidable (Lossless x) := decidable_of_iff _ lossless_iff.symm

example : Lossless 0.1 := by decide +kernel

-- All of its digits are written, and the real put together from them is the next one.
example : ¬ Lossless 123.45787790123445 := by decide +kernel

/-! ## Integers -/

theorem head?_toDigits_ne {n : Nat} (hn : 0 < n) : (Nat.toDigits 10 n).head? ≠ some '0' := by
  induction n using Nat.strongRecOn with
  | ind n ih =>
      rcases Nat.lt_or_ge n 10 with h | h
      · rw [Nat.toDigits_of_lt_base h, List.head?_cons, Ne, Option.some.injEq,
          Nat.digitChar_eq_zero]
        exact Nat.ne_of_gt hn
      · have hquotient := ih (n / 10) (by omega) (by omega)
        rw [Nat.toDigits_of_base_le (by decide) h, List.head?_append]
        cases hhead : (Nat.toDigits 10 (n / 10)).head? with
        | none => exact absurd (List.head?_eq_none_iff.mp hhead) Nat.toDigits_ne_nil
        | some c => rwa [hhead] at hquotient

/-- Digits with or without a sign are a number literal. -/
theorem numberText?_signed {n : Nat} {negative : Bool}
    (hsign : signPart cs = (negative, Nat.toDigits 10 n)) :
    numberText? cs = some (⟨negative, Nat.toDigits 10 n, none, none⟩, []) := by
  have hrun : digitRun (Nat.toDigits 10 n) = (Nat.toDigits 10 n, []) := by
    have hspells := spells_toDigits n
    have htake := hspells.takeWhile_append digitsEnd_nil
    have hdrop := hspells.dropWhile_append digitsEnd_nil
    rw [List.append_nil] at htake hdrop
    rw [digitRun, htake, hdrop]
  have hwhole : Nat.toDigits 10 n ≠ [] ∧
      ((Nat.toDigits 10 n).head? = some '0' → (Nat.toDigits 10 n).length = 1) := by
    refine ⟨Nat.toDigits_ne_nil, fun hzero => ?_⟩
    rcases Nat.eq_zero_or_pos n with rfl | hn
    · rfl
    · exact absurd hzero (head?_toDigits_ne hn)
  unfold numberText?
  rw [hsign]
  dsimp only
  rw [hrun]
  show (ite _ (some ()) none : Option Unit).bind _ = _
  rw [if_pos hwhole]
  rfl

theorem foldl_toDigits (n : Nat) :
    (Nat.toDigits 10 n).foldl (fun n c => n * 10 + digitValue c) 0 = n :=
  (spells_toDigits n).foldl_eq

theorem literal_nat {n : Nat} (h : n < UInt64.size) : Literal (Nat.toDigits 10 n) (.int n) := by
  refine ⟨⟨false, Nat.toDigits 10 n, none, none⟩, numberText?_signed ?_, ?_⟩
  · obtain ⟨c, ds, hds⟩ := List.exists_cons_of_ne_nil (Nat.toDigits_ne_nil (n := n) (b := 10))
    have hc := (spells_toDigits n).digits c (hds ▸ List.mem_cons_self)
    rw [hds]
    refine signPart_of_ne ?_
    rintro rfl
    cases hc
  · have hint : NumberText.int? ⟨false, Nat.toDigits 10 n, none, none⟩ = some (n : Int) := by
      simp only [NumberText.int?, Option.isSome_none, Bool.false_eq_true, or_self, if_false,
        foldl_toDigits, Word.unsigned64?, if_pos h]
      rfl
    rw [NumberText.value, hint]

theorem literal_minus {n : Nat} (hn : 0 < n) (h : Int64.minValue.toInt ≤ -(n : Int)) :
    Literal ('-' :: Nat.toDigits 10 n) (.int (-n)) := by
  refine ⟨⟨true, Nat.toDigits 10 n, none, none⟩, numberText?_signed rfl, ?_⟩
  have hmost : -(n : Int) ≤ Int64.maxValue.toInt := by
    have : Int64.maxValue.toInt = 9223372036854775807 := rfl
    omega
  have hint : NumberText.int? ⟨true, Nat.toDigits 10 n, none, none⟩ = some (-(n : Int)) := by
    simp only [NumberText.int?, Option.isSome_none, Bool.false_eq_true, or_self, if_false, if_true,
      foldl_toDigits, if_pos hn, Word.signed64?, if_pos (And.intro h hmost)]
  rw [NumberText.value, hint]

/-- The integers that a number literal can stand for. -/
def Fits64 (n : Int) : Prop := Int64.minValue.toInt ≤ n ∧ n < UInt64.size

theorem literal_int {n : Int} (h : Fits64 n) : Literal (toString n).toList (.int n) := by
  cases n with
  | ofNat n =>
      have htext : (toString (n : Int)).toList = Nat.toDigits 10 n := Nat.toList_repr
      exact htext ▸ literal_nat (Int.ofNat_lt.mp h.2)
  | negSucc n =>
      have htext : (toString (Int.negSucc n)).toList = '-' :: Nat.toDigits 10 (n + 1) := by
        show ("-" ++ Nat.repr (n + 1)).toList = _
        rw [String.toList_append, Nat.toList_repr]
        rfl
      exact htext ▸ literal_minus n.succ_pos h.1

/-! ## Strings -/

theorem hexValue?_hexDigit {n : Nat} (h : n < 16) : hexValue? (hexDigit n) = some n := by
  revert n
  decide

theorem unit?_hexDigits {n : Nat} (h : n < 256) :
    unit? ('0' :: '0' :: hexDigit (n / 16) :: hexDigit (n % 16) :: rest) = some (n, rest) := by
  have hzero : hexValue? '0' = some 0 := rfl
  have hsum : 0 * 4096 + 0 * 256 + n / 16 * 16 + n % 16 = n := by omega
  simp only [unit?, hzero, hexValue?_hexDigit (show n / 16 < 16 by omega),
    hexValue?_hexDigit (show n % 16 < 16 by omega), Option.bind_eq_bind, Option.bind_some, hsum]
  rfl

/-- The body of a string goes on behind an escaped character as behind the character. -/
theorem stringBody?_escape (fuel : Nat) (acc : List Char) (c : Char) :
    stringBody? (fuel + 1) (some acc) (escape c ++ rest) =
      stringBody? fuel (some (c :: acc)) rest := by
  unfold escape
  split
  iterate 7
    next => rfl
  next hquote hslash _ _ _ _ _ =>
    split
    next hlow =>
      have hunit : unit? _ = some (c.toNat, rest) := unit?_hexDigits (by omega)
      have hplain : c.toNat < 0xD800 ∨ 0xE000 ≤ c.toNat := by omega
      show (unit? ('0' :: '0' :: hexDigit (c.toNat / 16) :: hexDigit (c.toNat % 16) :: rest)).bind
        _ = _
      rw [hunit]
      show ite _ _ _ = _
      rw [if_pos hplain, Char.ofNat_toNat]
      rfl
    next hlow =>
      rw [List.singleton_append, stringBody?]
      · rw [if_neg hlow]
        rfl
      · exact hquote
      · exact fun _ heq => (hslash heq).elim
      · exact fun _ _ heq => (hslash heq).elim

theorem stringBody?_flatMap {fuel : Nat} {acc : List Char} (h : cs.length < fuel) :
    stringBody? fuel (some acc) (cs.flatMap escape ++ '"' :: rest) =
      some (some (String.ofList (acc.reverse ++ cs)), rest) := by
  induction cs generalizing fuel acc with
  | nil =>
      obtain ⟨fuel, rfl⟩ := Nat.exists_eq_succ_of_ne_zero (Nat.ne_of_gt h)
      rw [List.append_nil]
      rfl
  | cons c cs ih =>
      obtain ⟨fuel, rfl⟩ := Nat.exists_eq_succ_of_ne_zero (Nat.ne_of_gt (Nat.zero_lt_of_lt h))
      rw [List.flatMap_cons, List.append_assoc, stringBody?_escape, ih (Nat.lt_of_succ_lt_succ h),
        List.reverse_cons, List.append_assoc, List.singleton_append]

theorem length_le_flatMap_escape : cs.length ≤ (cs.flatMap escape).length := by
  induction cs with
  | nil => exact Nat.le_refl 0
  | cons c cs ih =>
      have hpos : 0 < (escape c).length := by
        unfold escape
        repeat' split
        all_goals exact Nat.succ_pos _
      rw [List.flatMap_cons, List.length_append, List.length_cons]
      omega

theorem toList_quoted (s : String) :
    (quoted s).toList = '"' :: (s.toList.flatMap escape ++ ['"']) := by
  simp only [quoted, String.toList_append, String.toList_ofList]
  rfl

/-- A quoted string is read as the string, whatever follows. -/
theorem string?_quoted (s : String) :
    string? (s.toList.flatMap escape ++ '"' :: rest) = some (some s, rest) := by
  have hfuel : s.toList.length < (s.toList.flatMap escape ++ '"' :: rest).length + 1 := by
    have hlength : s.toList.length ≤ (s.toList.flatMap escape).length := length_le_flatMap_escape
    rw [List.length_append]
    omega
  rw [string?, stringBody?_flatMap hfuel, List.reverse_nil, List.nil_append, String.ofList_toList]

end Wellbore.Json
