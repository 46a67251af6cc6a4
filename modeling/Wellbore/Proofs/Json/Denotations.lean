import Wellbore.Proofs.Decimal.FiniteReals
import Wellbore.Proofs.Json.ReadBack

/-!
# What a text can stand for

Whatever is read from a text has only finite reals and only integers of 64 bits
(`proper_of_parse?`). For the integers the reader checks it. A real is put together from
its leading digits and scaled by powers of ten: a product is refused when it comes out
infinite, and a quotient stays finite because it is no quotient of two arbitrary reals,
the digits being an integer of 64 bits and the divisor at least one. The readers of
values, items and members call each other on less fuel, and one induction on the fuel
carries all three.
-/

namespace Wellbore.Json

open Decimal

variable {v : Json} {cs rest : List Char} {t : NumberText} {f x : Float}

/-! ## Numbers -/

theorem above_powerOfTen {n : Nat} (h : n ≤ 308) : Above (-52) (powerOfTen n).toModel.unpack := by
  -- There are 309 of these reals, and each of them is computed.
  revert n
  decide +kernel

/-- The power is named, since left as it is it would be computed. -/
theorem above_powerOfTen_last {p : Float} (hp : powerOfTen 308 = p) :
    Above 971 p.toModel.unpack := by
  rw [← hp]
  decide +kernel

theorem isFinite_of_scale? {fuel : Nat} {exponent : Int} (hf : Below 53 428 f.toModel.unpack)
    (h : scale? fuel f exponent = some x) : x.isFinite = true := by
  induction fuel generalizing f exponent with
  | zero =>
      cases h
      exact hf.isFinite
  | succ fuel ih =>
      rw [scale?] at h
      split at h
      next hexponent =>
        have hpower := above_powerOfTen hexponent
        split at h
        next =>
          obtain ⟨hinf, heq⟩ := Option.ite_none_left_eq_some.mp h
          cases heq
          exact isFinite_mul hf.isFinite hpower.isFinite (Bool.eq_false_iff.mpr hinf)
        next =>
          cases h
          exact (below_quotient hf hpower (by decide) (by decide)).isFinite
      next =>
        split at h
        next =>
          cases h
          exact hf.isFinite
        next =>
          split at h
          next => cases h
          next =>
            generalize hp : powerOfTen 308 = p at h
            have hquotient := below_quotient hf (above_powerOfTen_last hp) (by decide) (by decide)
            exact ih (hquotient.mono (by decide)) h

theorem keepDigits_lt {kept : Nat} (h : kept < UInt64.size) :
    (keepDigits kept cs).1 < UInt64.size := by
  induction cs generalizing kept with
  | nil => exact h
  | cons c cs ih =>
      rw [keepDigits]
      split
      next hnext => exact ih hnext
      next => exact h

theorem isFinite_of_magnitude? (h : t.magnitude? = some x) : x.isFinite = true := by
  have hkept : (keepDigits (keepDigits 0 t.whole).1 (t.fraction.getD [])).1 < UInt64.size :=
    keepDigits_lt (keepDigits_lt (by decide))
  unfold NumberText.magnitude? at h
  dsimp only at h
  split at h
  next => exact isFinite_of_scale? (below_ofNat hkept) h
  next =>
    split at h
    next => exact isFinite_of_scale? (below_ofNat hkept) h
    next =>
      obtain ⟨-, heq⟩ := Option.ite_none_left_eq_some.mp h
      cases heq
      decide

theorem isFinite_of_real? (h : t.real? = some x) : x.isFinite = true := by
  obtain ⟨y, hy, rfl⟩ := Option.map_eq_some_iff.mp h
  have hfinite := isFinite_of_magnitude? hy
  split
  · exact isFinite_neg hfinite
  · exact hfinite

theorem fits64_natCast {n : Nat} (h : n < UInt64.size) : Fits64 n :=
  ⟨Int.le_trans (by decide) (Int.natCast_nonneg n), Int.ofNat_lt.mpr h⟩

theorem fits64_of_int? {n : Int} (h : t.int? = some n) : Fits64 n := by
  obtain ⟨-, h⟩ := Option.ite_none_left_eq_some.mp h
  split at h
  next =>
    obtain ⟨-, h⟩ := Option.ite_none_right_eq_some.mp h
    obtain ⟨⟨hleast, hmost⟩, heq⟩ := Option.ite_none_right_eq_some.mp h
    cases heq
    exact ⟨hleast, Int.lt_of_le_of_lt hmost (by decide)⟩
  next =>
    obtain ⟨m, hm, rfl⟩ := Option.map_eq_some_iff.mp h
    obtain ⟨hlt, heq⟩ := Option.ite_none_right_eq_some.mp hm
    cases heq
    exact fits64_natCast hlt

/-! ## Values -/

/-- A value that a text can stand for. -/
abbrev Denoted (v : Json) : Prop := v.Proper (fun x => x.isFinite = true) True

theorem denoted_value (t : NumberText) : t.value.Denoted := by
  unfold NumberText.value
  split
  next hint => exact .int (fits64_of_int? hint)
  next =>
    split
    next hreal => exact .real (isFinite_of_real? hreal)
    next => exact .unreadable trivial

theorem denoted_ofMembers {members : List (Option String × Json)} (h : ∀ m ∈ members, m.2.Denoted) :
    (ofMembers members).Denoted := by
  unfold ofMembers
  split
  next named hnamed =>
    refine .obj ?_
    induction members generalizing named with
    | nil =>
        cases hnamed
        exact List.forall_mem_nil _
    | cons m members ih =>
        rw [List.mapM_cons] at hnamed
        obtain ⟨_, hm, hnamed⟩ := Option.bind_eq_some_iff.mp hnamed
        obtain ⟨_, hmembers, heq⟩ := Option.bind_eq_some_iff.mp hnamed
        cases heq
        obtain ⟨_, -, rfl⟩ := Option.map_eq_some_iff.mp hm
        obtain ⟨hfirst, hrest⟩ := List.forall_mem_cons.mp h
        exact List.forall_mem_cons.mpr ⟨hfirst, ih hrest _ hmembers⟩
  next => exact .unreadable trivial

/-- The readers yield only such values on this much fuel. -/
structure Denotes (fuel : Nat) : Prop where
  value : ∀ {cs v rest}, value? fuel cs = some (v, rest) → v.Denoted
  items : ∀ {acc cs v rest}, (∀ u ∈ acc, Denoted u) → items? fuel acc cs = some (v, rest) →
    v.Denoted
  members : ∀ {acc cs v rest}, (∀ m ∈ acc, Denoted m.2) → members? fuel acc cs = some (v, rest) →
    v.Denoted

theorem Denotes.value_succ {fuel : Nat} (h : Denotes fuel)
    (hvalue : value? (fuel + 1) cs = some (v, rest)) : v.Denoted := by
  rw [value?.eq_def] at hvalue
  dsimp only at hvalue
  split at hvalue
  next => cases hvalue; exact .null
  next => cases hvalue; exact .bool true
  next => cases hvalue; exact .bool false
  next =>
    obtain ⟨⟨text, _⟩, -, heq⟩ := Option.bind_eq_some_iff.mp hvalue
    cases heq
    cases text with
    | none => exact .unreadable trivial
    | some s => exact .str s
  next =>
    split at hvalue
    next => cases hvalue; exact .arr (List.forall_mem_nil _)
    next => exact h.items (List.forall_mem_nil _) hvalue
  next =>
    split at hvalue
    next => cases hvalue; exact .obj (List.forall_mem_nil _)
    next => exact h.members (List.forall_mem_nil _) hvalue
  next =>
    obtain ⟨⟨t, _⟩, -, heq⟩ := Option.bind_eq_some_iff.mp hvalue
    cases heq
    exact denoted_value t

theorem Denotes.items_succ {fuel : Nat} {acc : List Json} (h : Denotes fuel)
    (hacc : ∀ u ∈ acc, u.Denoted) (hitems : items? (fuel + 1) acc cs = some (v, rest)) :
    v.Denoted := by
  obtain ⟨⟨item, _⟩, hitem, hitems⟩ := Option.bind_eq_some_iff.mp hitems
  have hread : ∀ u ∈ item :: acc, u.Denoted := List.forall_mem_cons.mpr ⟨h.value hitem, hacc⟩
  dsimp only at hitems
  split at hitems
  next => exact h.items hread hitems
  next =>
    cases hitems
    exact .arr fun u hu => hread u (List.mem_reverse.mp hu)
  next => cases hitems

theorem Denotes.members_succ {fuel : Nat} {acc : List (Option String × Json)} (h : Denotes fuel)
    (hacc : ∀ m ∈ acc, m.2.Denoted) (hmembers : members? (fuel + 1) acc cs = some (v, rest)) :
    v.Denoted := by
  rw [members?.eq_def] at hmembers
  dsimp only at hmembers
  split at hmembers
  next =>
    obtain ⟨⟨name, _⟩, -, hmembers⟩ := Option.bind_eq_some_iff.mp hmembers
    dsimp only at hmembers
    split at hmembers
    next =>
      obtain ⟨⟨item, _⟩, hitem, hmembers⟩ := Option.bind_eq_some_iff.mp hmembers
      have hread : ∀ m ∈ (name, item) :: acc, m.2.Denoted :=
        List.forall_mem_cons.mpr ⟨h.value hitem, hacc⟩
      dsimp only at hmembers
      split at hmembers
      next => exact h.members hread hmembers
      next =>
        cases hmembers
        exact denoted_ofMembers fun m hm => hread m (List.mem_reverse.mp hm)
      next => cases hmembers
    next => cases hmembers
  next => cases hmembers

theorem denotes (fuel : Nat) : Denotes fuel := by
  induction fuel with
  | zero =>
      refine ⟨fun h => ?_, fun _ h => ?_, fun _ h => ?_⟩
      all_goals cases h
  | succ fuel ih => exact ⟨ih.value_succ, ih.items_succ, ih.members_succ⟩

theorem denoted_of_parse? {text : String} (h : parse? text = some v) : v.Denoted := by
  obtain ⟨⟨w, _⟩, hvalue, h⟩ := Option.bind_eq_some_iff.mp h
  obtain ⟨-, -, heq⟩ := Option.bind_eq_some_iff.mp h
  cases heq
  exact (denotes _).value hvalue

end Wellbore.Json
