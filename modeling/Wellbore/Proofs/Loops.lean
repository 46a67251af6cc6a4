import Mathlib.Data.Fintype.Pigeonhole
import Mathlib.Data.List.Perm.Subperm
import Mathlib.Tactic.Choose
import Wellbore.Proofs.Walk

/-!
# Ways that come back

A way along a function that does not end runs into a loop. Whatever is on a loop stays on
it, so a loop is left by no step; it can only be entered.

Going up against the steps, a choice is to be made at every slot. Where there always is one
and the slots are finitely many, some choice is made twice, and then the slot that one set
out from was on a loop all along.

A walk that is cut off may end within a loop. If it meets no slot twice although it had as
many steps as there are slots, it has met every slot that there is.
-/

namespace Wellbore.Slot

/-- The way from a slot comes back to it. -/
def Loops (next : Slot → Option Slot) (a : Slot) : Prop :=
  Relation.TransGen (fun x y => next x = some y) a a

variable {next : Slot → Option Slot} {a b x : Slot} {size : Nat}

/-- A loop is left by no step. -/
theorem Loops.leads_back (h : Loops next x) (hx : Leads next x a) : Leads next a x := by
  induction hx with
  | refl => exact .refl
  | @tail y a _ hs ih =>
      have hback : Relation.TransGen (fun x y => next x = some y) y x := .trans_right ih h
      obtain ⟨c, hc, hcx⟩ := Relation.TransGen.head'_iff.mp hback
      rw [hs] at hc
      cases hc
      exact hcx

/-- Whatever a loop leads to is on it. -/
theorem Loops.of_leads (h : Loops next x) (hx : Leads next x a) : Loops next a :=
  .trans_left (.trans_right (h.leads_back hx) h) hx

/-- Where every slot is led to by another one, there is nothing but loops. -/
theorem loops_of_fed {P : Slot → Prop} (hlt : ∀ x, P x → x < size)
    (hfed : ∀ x, P x → ∃ y, P y ∧ next y = some x) (ha : P a) : Loops next a := by
  choose! up hup hnext using hfed
  have hmem : ∀ n, P (up^[n] a) := by
    intro n
    induction n with
    | zero => exact ha
    | succ n ih =>
        rw [Function.iterate_succ_apply']
        exact hup _ ih
  have hleads : ∀ m n, Leads next (up^[m + n] a) (up^[m] a) := by
    intro m n
    induction n with
    | zero => exact .refl
    | succ n ih =>
        rw [← Nat.add_assoc, Function.iterate_succ_apply']
        exact .head (hnext _ (hmem _)) ih
  -- two of the slots that are met going up are the same
  have hloop : ∀ m n, m < n → up^[m] a = up^[n] a → Loops next a := by
    intro m n hmn heq
    obtain ⟨k, rfl⟩ := Nat.exists_eq_add_of_lt hmn
    have hstep : next (up^[m + k + 1] a) = some (up^[m + k] a) := by
      rw [Function.iterate_succ_apply']
      exact hnext _ (hmem _)
    rw [← heq] at hstep
    have hm : Loops next (up^[m] a) := .head' hstep (hleads m k)
    have hdown := hleads 0 m
    rw [Nat.zero_add] at hdown
    exact hm.of_leads hdown
  obtain ⟨m, n, hne, heq⟩ := Finite.exists_ne_map_eq_of_infinite
    fun n : Nat => (⟨up^[n] a, hlt _ (hmem n)⟩ : Fin size)
  have heq : up^[m] a = up^[n] a := congrArg Fin.val heq
  rcases Nat.lt_or_gt_of_ne hne with hlt | hgt
  · exact hloop m n hlt heq
  · exact hloop n m hgt heq.symm

/-! ## Walks that are cut off -/

theorem length_walk_of_not_ends (h : ¬ Ends next a) (n : Nat) :
    (walk next n a).length = n := by
  induction n generalizing a with
  | zero => rfl
  | succ n ih =>
      cases hn : next a with
      | none => exact absurd (.here hn) h
      | some b => rw [walk_of_some hn, List.length_cons, ih fun hb => h (.there hn hb)]

/-- A walk with as many steps as there are slots, if it meets none twice, meets all that
lie on the way. -/
theorem mem_walk_of_nodup (hnodup : (walk next size a).Nodup) (ha : a < size)
    (hin : ∀ x y, next x = some y → y < size) (h : Leads next a b) :
    b ∈ walk next size a := by
  by_cases hends : Ends next a
  · obtain ⟨k, hk⟩ := hends
    exact hk.mem_walk (hk.lt_size ha hin) h
  · have hlt : ∀ {x}, Leads next a x → x < size := fun hx =>
      hx.induct (P := (· < size)) ha fun y z _ hs => hin y z hs
    have hsubset : walk next size a ⊆ List.range size := fun x hx =>
      List.mem_range.mpr (hlt (leads_of_mem_walk hx))
    have hlength : (List.range size).length ≤ (walk next size a).length := by
      rw [List.length_range, length_walk_of_not_ends hends]
    have hperm := (List.subperm_of_subset hnodup hsubset).perm_of_length_le hlength
    exact hperm.mem_iff.mpr (List.mem_range.mpr (hlt h))

end Wellbore.Slot
