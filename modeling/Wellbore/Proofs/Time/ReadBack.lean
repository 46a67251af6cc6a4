import Wellbore.Time.Text
import Wellbore.Proofs.Decimal.Digits
import Wellbore.Proofs.Time.Calendar

/-!
# Times written and read

The reader for times in data takes more than the writer writes: short fields, blanks,
other zones. What is read is nevertheless always an instant that can be written
(`shown_of_parse?`), and the written form of such an instant is read as that instant
(`parse?_text`), in every year that a date can name and within a leap second.
-/

namespace Wellbore.Instant

open Decimal
open Text (trimStart)

/-- An instant that a calendar and a clock can show: a leap second ends a minute. -/
structure Shown (t : Instant) : Prop where
  dated : t.date.valid = true
  nano : t.nano < 2000000000
  leap : 1000000000 ≤ t.nano → t.second % 60 = 59

instance (t : Instant) : Decidable t.Shown :=
  decidable_of_iff (t.date.valid = true ∧ t.nano < 2000000000 ∧
      (1000000000 ≤ t.nano → t.second % 60 = 59))
    ⟨fun ⟨hdated, hnano, hleap⟩ => ⟨hdated, hnano, hleap⟩,
      fun ⟨hdated, hnano, hleap⟩ => ⟨hdated, hnano, hleap⟩⟩

variable {t : Instant} {ds cs rest : List Char} {n most : Nat}

/-! ## Fields -/

theorem trimStart_cons {c : Char} (h : Text.isBlank c = false) :
    trimStart (c :: cs) = c :: cs := by
  rw [trimStart, List.dropWhile_cons_of_neg]
  rw [h]
  exact Bool.false_ne_true

theorem not_isBlank_of_isDigit {c : Char} (h : c.isDigit = true) : Text.isBlank c = false := by
  have hc : 48 ≤ c.toNat ∧ c.toNat ≤ 57 := Char.isDigit_iff_toNat.mp h
  simp only [Text.isBlank, Bool.or_eq_false_iff, Bool.and_eq_false_iff, decide_eq_false_iff_not]
  omega

theorem trimStart_digits (h : Spells ds n) (hds : ds ≠ []) :
    trimStart (ds ++ rest) = ds ++ rest := by
  cases ds with
  | nil => exact absurd rfl hds
  | cons c ds =>
      exact trimStart_cons (not_isBlank_of_isDigit (h.digits c List.mem_cons_self))

theorem padded_ne_nil {width n : Nat} : (padded width n).toList ≠ [] := by
  rw [toList_padded]
  exact List.append_ne_nil_of_right_ne_nil _ Nat.toDigits_ne_nil

theorem looseDigits?_padded {width n : Nat} (hwidth : 0 < width) (h : n < 10 ^ width)
    (hrest : DigitsEnd rest) :
    looseDigits? width ((padded width n).toList ++ rest) = some (n, rest) := by
  have hlength := length_padded hwidth h
  rw [looseDigits?, trimStart_digits (spells_padded width n) padded_ne_nil]
  exact digits?_append (spells_padded width n) (by omega) (by omega) hrest

theorem looseDigits?_two (h : n < 100) (hrest : DigitsEnd rest) :
    looseDigits? 2 ((padded 2 n).toList ++ rest) = some (n, rest) :=
  looseDigits?_padded (by decide) h hrest

theorem looseMark?_cons {c : Char} (h : Text.isBlank c = false) :
    looseMark? c (c :: cs) = some cs := by
  rw [looseMark?, trimStart_cons h, expect?, if_pos rfl]

theorem toList_cons_append (c : Char) (s : String) :
    (String.ofList [c] ++ s).toList ++ rest = c :: (s.toList ++ rest) := by
  rw [String.toList_append, String.toList_ofList, List.append_assoc, List.singleton_append]

/-- After a sign a year may have any number of digits. -/
theorem digits?_length (h : Spells ds n) (hds : ds ≠ []) (hrest : DigitsEnd rest) :
    digits? 1 (ds ++ rest).length (ds ++ rest) = some (n, rest) := by
  refine digits?_append h (List.length_pos_iff.mpr hds) ?_ hrest
  rw [List.length_append]
  exact Nat.le_add_right _ _

theorem looseYear?_of_isDigit {c : Char} (h : c.isDigit = true) :
    looseYear? (c :: cs) = (digits? 1 4 (c :: cs)).map fun run => ((run.1 : Int), run.2) := by
  unfold looseYear?
  rw [trimStart_cons (not_isBlank_of_isDigit h)]
  split
  next heq => cases heq; cases h
  next heq => cases heq; cases h
  next => rfl

theorem looseYear?_minus : looseYear? ('-' :: cs) =
    (digits? 1 cs.length cs).map fun run => (-(run.1 : Int), run.2) := by
  rw [looseYear?, trimStart_cons rfl]
  rfl

theorem looseYear?_plus : looseYear? ('+' :: cs) =
    (digits? 1 cs.length cs).map fun run => ((run.1 : Int), run.2) := by
  rw [looseYear?, trimStart_cons rfl]
  rfl

theorem looseYear?_yearText {year : Int} (hrest : DigitsEnd rest) :
    looseYear? ((yearText year).toList ++ rest) = some (year, rest) := by
  have hspells (n : Nat) := spells_padded 4 n
  unfold yearText
  split
  next hshort =>
    have hlength : (padded 4 year.toNat).toList.length = 4 :=
      length_padded (by decide) (by omega)
    have hread : digits? 1 4 ((padded 4 year.toNat).toList ++ rest) = some (year.toNat, rest) :=
      digits?_append (hspells year.toNat) (by omega) (Nat.le_of_eq hlength) hrest
    have hne : (padded 4 year.toNat).toList ≠ [] := padded_ne_nil
    obtain ⟨c, ds, hds⟩ := List.exists_cons_of_ne_nil hne
    have hc : c.isDigit = true := (hspells year.toNat).digits c (hds ▸ List.mem_cons_self)
    rw [hds, List.cons_append] at hread ⊢
    rw [looseYear?_of_isDigit hc, hread, Option.map_some, Int.toNat_of_nonneg hshort.1]
  next hlong =>
    have hread := digits?_length (hspells year.natAbs) padded_ne_nil hrest
    split
    next hneg =>
      rw [toList_cons_append '-', looseYear?_minus, hread, Option.map_some]
      rw [Int.ofNat_natAbs_of_nonpos (Int.le_of_lt hneg), Int.neg_neg]
    next hpos =>
      rw [toList_cons_append '+', looseYear?_plus, hread, Option.map_some]
      rw [Int.natAbs_of_nonneg (Int.not_lt.mp hpos)]

theorem fraction?_digits (h : Spells ds n) (hpos : 0 < ds.length) (hle : ds.length ≤ 9)
    (hrest : DigitsEnd rest) :
    fraction? ('.' :: (ds ++ rest)) = some (10 ^ (9 - ds.length) * n, rest) := by
  have hkept : (ds ++ List.replicate 9 '0').take 9 = ds ++ List.replicate (9 - ds.length) '0' := by
    rw [List.take_append, List.take_of_length_le hle, List.take_replicate,
      Nat.min_eq_left (Nat.sub_le 9 _)]
  unfold fraction?
  simp only [h.takeWhile_append hrest, hkept, (h.append_zeros _).foldl_eq, List.drop_left]
  rw [if_neg]
  rw [List.isEmpty_iff]
  exact List.ne_nil_of_length_pos hpos

/-- A fraction with its digits cut to one of the three precisions. -/
theorem fraction?_padded {width k : Nat} (hpos : 0 < width) (hle : width ≤ 9)
    (hk : k < 10 ^ width) (hrest : DigitsEnd rest) :
    fraction? (("." ++ padded width k).toList ++ rest) = some (10 ^ (9 - width) * k, rest) := by
  have hlength := length_padded hpos hk
  have hread := fraction?_digits (spells_padded width k) (by omega) (by omega) hrest
  rw [toList_cons_append '.', hread, hlength]

theorem fraction?_fractionText (h : n < 1000000000) :
    fraction? ((fractionText n).toList ++ ['Z']) = some (n, ['Z']) := by
  have hend : DigitsEnd ['Z'] := digitsEnd_cons rfl
  unfold fractionText
  split
  next hzero => rw [hzero]; rfl
  next =>
    split
    next hmilli =>
      rw [fraction?_padded (by decide) (by decide) (by omega) hend]
      simp
      omega
    next =>
      split
      next hmicro =>
        rw [fraction?_padded (by decide) (by decide) (by omega) hend]
        simp
        omega
      next =>
        rw [fraction?_padded (by decide) (by decide) h hend]
        simp

theorem digitsEnd_fractionText (n : Nat) : DigitsEnd ((fractionText n).toList ++ ['Z']) := by
  unfold fractionText
  split
  next => exact digitsEnd_cons rfl
  next =>
    split
    next => simp [DigitsEnd]
    next =>
      split
      next => simp [DigitsEnd]
      next => simp [DigitsEnd]

/-! ## Dates and clocks -/

theorem toList_dateText (t : Instant) : t.dateText.toList =
    (yearText t.date.year).toList ++ '-' :: ((padded 2 t.date.month).toList ++ '-' ::
      (padded 2 t.date.day).toList) := by
  simp [dateText]

theorem date?_dateText (h : t.date.valid = true) (hrest : DigitsEnd rest) :
    FieldReader.loose.date? (t.dateText.toList ++ rest) = some (t.date, rest) := by
  obtain ⟨hmonth, hday⟩ := Time.lt_of_valid h
  have hsep {cs} : DigitsEnd ('-' :: cs) := digitsEnd_cons rfl
  have hdash {cs} : looseMark? '-' ('-' :: cs) = some cs := looseMark?_cons rfl
  rw [toList_dateText]
  simp only [FieldReader.date?, FieldReader.loose, List.append_assoc, List.cons_append,
    looseYear?_yearText hsep, hdash, looseDigits?_two hmonth hsep, looseDigits?_two hday hrest,
    Option.bind_eq_bind, Option.bind_some]
  rfl

/-- What a clock shows of an instant. -/
def clock (t : Instant) : Clock where
  hour := (t.second % 86400).toNat / 3600
  minute := (t.second % 86400).toNat / 60 % 60
  second := (t.second % 86400).toNat % 60 + t.nano / 1000000000
  nano := t.nano % 1000000000

theorem toList_clockText (t : Instant) : t.clockText.toList =
    (padded 2 t.clock.hour).toList ++ ':' :: ((padded 2 t.clock.minute).toList ++ ':' ::
      ((padded 2 t.clock.second).toList ++ (fractionText t.clock.nano).toList)) := by
  simp [clockText, clock]

theorem clock?_clockText (h : t.nano < 2000000000) :
    FieldReader.loose.clock? (t.clockText.toList ++ ['Z']) = some (t.clock, ['Z']) := by
  have hhour : t.clock.hour < 100 := show (t.second % 86400).toNat / 3600 < 100 by omega
  have hminute : t.clock.minute < 100 :=
    show (t.second % 86400).toNat / 60 % 60 < 100 by omega
  have hsecond : t.clock.second < 100 :=
    show (t.second % 86400).toNat % 60 + t.nano / 1000000000 < 100 by omega
  have hnano : t.clock.nano < 1000000000 := Nat.mod_lt _ (by decide)
  have hsep {cs} : DigitsEnd (':' :: cs) := digitsEnd_cons rfl
  have hcolon {cs} : looseMark? ':' (':' :: cs) = some cs := looseMark?_cons rfl
  rw [toList_clockText]
  simp only [FieldReader.clock?, FieldReader.loose, List.append_assoc, List.cons_append, hcolon,
    looseDigits?_two hhour hsep, looseDigits?_two hminute hsep,
    looseDigits?_two hsecond (digitsEnd_fractionText _), fraction?_fractionText hnano,
    Option.bind_eq_bind, Option.bind_some]
  rfl

/-! ## Instants -/

theorem dated?_eq_some {u : Instant} : u.dated? = some t ↔ t.date.valid = true ∧ t = u := by
  rw [dated?, Option.ite_none_right_eq_some, Option.some.injEq]
  exact ⟨fun ⟨hvalid, heq⟩ => ⟨heq ▸ hvalid, heq.symm⟩,
    fun ⟨hvalid, heq⟩ => ⟨heq ▸ hvalid, heq.symm⟩⟩

theorem ofParts?_eq_some {date : Time.Date} {clock : Clock} {offset : Int} :
    ofParts? date clock offset = some t ↔
      (date.valid = true ∧ clock.hour < 24 ∧ clock.minute < 60 ∧ clock.second ≤ 60) ∧
        t.date.valid = true ∧
        t = ⟨date.dayNumber * 86400 + ((clock.hour : Int) * 3600 + clock.minute * 60 +
            (clock.second - (if clock.second = 60 then 1 else 0) : Nat)) - offset,
          clock.nano + (if clock.second = 60 then 1 else 0) * 1000000000⟩ := by
  rw [← dated?_eq_some]
  show (ite _ (some ()) none : Option Unit).bind _ = _ ↔ _
  split
  next hparts => exact ⟨fun h => ⟨hparts, h⟩, And.right⟩
  next hparts => exact ⟨fun h => (nomatch h), fun h => absurd h.1 hparts⟩

/-- The date and the clock of an instant, put together again. -/
theorem ofParts?_clock (h : t.Shown) : ofParts? t.date t.clock 0 = some t := by
  have hnano := h.nano
  have hleap := h.leap
  have hday : t.date.dayNumber = t.second / 86400 := Time.dayNumber_ofDayNumber _
  refine ofParts?_eq_some.mpr ⟨⟨h.dated, ?_, ?_, ?_⟩, h.dated, ?_⟩
  · show (t.second % 86400).toNat / 3600 < 24
    omega
  · show (t.second % 86400).toNat / 60 % 60 < 60
    omega
  · show (t.second % 86400).toNat % 60 + t.nano / 1000000000 ≤ 60
    omega
  -- Only a leap second reads as second 60: any other nanoseconds are fewer than a billion.
  · by_cases hlong : 1000000000 ≤ t.nano
    · have hsixty : t.clock.second = 60 :=
        show (t.second % 86400).toNat % 60 + t.nano / 1000000000 = 60 by omega
      rw [if_pos hsixty, hday]
      obtain ⟨second, nano⟩ := t
      rw [Instant.mk.injEq]
      dsimp only [clock] at *
      omega
    · have hsixty : t.clock.second ≠ 60 :=
        show (t.second % 86400).toNat % 60 + t.nano / 1000000000 ≠ 60 by omega
      rw [if_neg hsixty, hday]
      obtain ⟨second, nano⟩ := t
      rw [Instant.mk.injEq]
      dsimp only [clock] at *
      omega

theorem parse?_text (h : t.Shown) : parse? t.text = some t := by
  have htext : t.text.toList = t.dateText.toList ++ 'T' :: (t.clockText.toList ++ ['Z']) := by
    simp [text]
  have hT : DigitsEnd ('T' :: (t.clockText.toList ++ ['Z'])) := digitsEnd_cons rfl
  have hzone : looseOffset? (trimStart ['Z']) = some (0, []) := by decide
  unfold parse?
  simp only [htext, date?_dateText h.dated hT, separator?, clock?_clockText h.nano, hzone,
    Option.bind_eq_bind, Option.bind_some]
  exact ofParts?_clock h

/-! ## What is read -/

theorem fraction?_lt (h : fraction? cs = some (n, rest)) : n < 1000000000 := by
  unfold fraction? at h
  split at h
  next digits =>
    obtain ⟨run, hrun⟩ : ∃ run, run = digits.takeWhile Char.isDigit := ⟨_, rfl⟩
    simp only [← hrun, Option.ite_none_left_eq_some, Option.some.injEq, Prod.mk.injEq] at h
    have hspells : Spells ((run ++ List.replicate 9 '0').take 9) _ := ⟨fun c hc => ?_, rfl⟩
    · have hlt := hspells.lt_pow
      rw [← hspells.foldl_eq, h.2.1, List.length_take] at hlt
      exact Nat.lt_of_lt_of_le hlt (Nat.pow_le_pow_right (by decide) (Nat.min_le_left 9 _))
    · rcases List.mem_append.mp (List.mem_of_mem_take hc) with hc | hc
      · rw [hrun] at hc
        exact List.all_eq_true.mp List.all_takeWhile c hc
      · rw [List.eq_of_mem_replicate hc]
        rfl
  next =>
    cases h
    decide

theorem nano_lt_of_clock? {r : FieldReader} {clock : Clock} (h : r.clock? cs = some (clock, rest)) :
    clock.nano < 1000000000 := by
  unfold FieldReader.clock? at h
  simp only [Option.bind_eq_bind, Option.bind_eq_some_iff, Prod.exists] at h
  obtain ⟨hour, _, -, _, -, minute, _, -, _, -, second, _, -, nano, _, hnano, heq⟩ := h
  cases heq
  exact fraction?_lt hnano

theorem looseOffset?_minutes {offset : Int} (h : looseOffset? cs = some (offset, rest)) :
    offset % 60 = 0 := by
  unfold looseOffset? offset? at h
  split at h
  next => cases h; rfl
  next =>
    split at h
    next => cases h; rfl
    next => cases h; rfl
    next =>
      unfold numericOffset? at h
      split at h
      case h_4 => cases h
      all_goals
        simp only [Option.bind_eq_bind, Option.bind_some, Option.bind_eq_some_iff, Prod.exists,
          Option.pure_def, Option.some.injEq, Prod.mk.injEq, Bool.false_eq_true, if_true,
          if_false] at h
        obtain ⟨hours, _, -, _, -, minutes, _, -, _, -, hoffset, -⟩ := h
        omega

/-- Whatever is read can be written. -/
theorem shown_of_parse? {s : String} (h : parse? s = some t) : t.Shown := by
  unfold parse? at h
  simp only [Option.bind_eq_bind, Option.bind_eq_some_iff, Prod.exists] at h
  obtain ⟨date, _, -, _, -, clock, _, hclock, offset, _, hoffset, -, -, hparts⟩ := h
  have hlt := nano_lt_of_clock? hclock
  have hminutes := looseOffset?_minutes hoffset
  obtain ⟨⟨-, -, -, hsecond⟩, hdated, rfl⟩ := ofParts?_eq_some.mp hparts
  refine ⟨hdated, ?_, ?_⟩
  · dsimp only
    split <;> omega
  · dsimp only
    split <;> omega

/-- The text of an instant is lossless exactly where it can be shown. -/
theorem parse?_text_iff : parse? t.text = some t ↔ t.Shown := ⟨shown_of_parse?, parse?_text⟩

end Wellbore.Instant
