import Wellbore.Archive.Partition
import Mathlib.Data.List.Basic

/-!
# Halving finds the end of the first part

A test divides a list if it never holds after a place where it fails. What passes
then stands in front of what does not, so the number of elements that pass is the
place of the divide, and every halving keeps that place among the positions that
are left.
-/

namespace Wellbore.Bisection

variable {α : Type} {test : α → Bool} {xs : Array α} {l : List α} {a : α} {k n : Nat}

/-- Where a test holds, it holds at everything before. -/
def Divides (test : α → Bool) (l : List α) : Prop :=
  l.Pairwise fun a b => test b = true → test a = true

theorem Divides.filter_append (h : Divides test l) :
    l.filter test ++ l.filter (fun a => !test a) = l := by
  induction l with
  | nil => rfl
  | cons a l ih =>
      obtain ⟨hfirst, hrest⟩ := List.pairwise_cons.mp h
      cases ha : test a with
      | true => simp [ha, ih hrest]
      | false =>
          have hnone : ∀ b ∈ l, test b = false := by
            intro b hb
            rw [Bool.eq_false_iff]
            intro hpass
            rw [hfirst b hb hpass] at ha
            cases ha
          have hkeep : l.filter test = [] := by simpa using hnone
          have hall : l.filter (fun a => !test a) = l := by simpa using hnone
          simp [ha, hkeep, hall]

/-- An element passes exactly if it stands among the first that many. -/
theorem Divides.test_iff_lt (h : Divides test l) (ha : l[n]? = some a) :
    test a = true ↔ n < (l.filter test).length := by
  rw [← h.filter_append] at ha
  rcases Nat.lt_or_ge n (l.filter test).length with hlt | hge
  · rw [List.getElem?_append_left hlt] at ha
    have hmem := List.mem_of_getElem? ha
    exact ⟨fun _ => hlt, fun _ => (List.mem_filter.mp hmem).2⟩
  · rw [List.getElem?_append_right hge] at ha
    have hmem := List.mem_of_getElem? ha
    have hfail := (List.mem_filter.mp hmem).2
    constructor
    · intro hpass
      rw [hpass] at hfail
      cases hfail
    · intro hlt
      omega

theorem Divides.filter_eq_take (h : Divides test l) : l.filter test = l.take (l.countP test) := by
  rw [List.countP_eq_length_filter]
  calc l.filter test
      = (l.filter test ++ l.filter fun a => !test a).take (l.filter test).length :=
        List.take_left.symm
    _ = l.take (l.filter test).length := by rw [h.filter_append]

/-- Where only what stands behind the divide is dropped, the rest keeps its places. -/
theorem Divides.getElem?_filterMap {β : Type} {f : α → Option β}
    (h : Divides (fun a => (f a).isSome) l) (i : Nat) : (l.filterMap f)[i]? = l[i]?.bind f := by
  induction l generalizing i with
  | nil => rfl
  | cons a l ih =>
      cases ha : f a with
      | some b =>
          rw [List.filterMap_cons_some ha]
          cases i with
          | zero => exact ha.symm
          | succ i => exact ih (List.pairwise_cons.mp h).2 i
      | none =>
          -- nothing passes, because the first element does not
          have hfirst := h.test_iff_lt (n := 0) rfl
          rw [ha, ← List.countP_eq_length_filter, List.countP_pos_iff] at hfirst
          have hnone : ∀ b ∈ a :: l, f b = none := by
            intro b hb
            by_contra hb'
            exact Bool.false_ne_true (hfirst.mpr ⟨b, hb, Option.isSome_iff_ne_none.mpr hb'⟩)
          rw [List.filterMap_eq_nil_iff.mpr hnone, List.getElem?_nil, eq_comm,
            Option.bind_eq_none_iff]
          exact fun b hb => hnone b (List.mem_of_getElem? hb)

/-- The place of the divide stays among the positions that are still searched. -/
theorem search_eq {test : Nat → Bool} {base size : Nat} (hpos : 0 < size) (hlo : base ≤ k)
    (hhi : k ≤ base + size)
    (htest : ∀ i, base ≤ i → i < base + size → (test i = true ↔ i < k)) :
    search test base size = k := by
  induction base, size using search.induct test with
  | case1 base size hle hpass =>
      rw [search, dif_pos hle, if_pos hpass]
      have hlt := (htest base (Nat.le_refl base) (by omega)).mp hpass
      omega
  | case2 base size hle hfail =>
      rw [search, dif_pos hle, if_neg hfail]
      have hge : ¬ base < k := fun hlt =>
        hfail ((htest base (Nat.le_refl base) (by omega)).mpr hlt)
      omega
  | case3 base size hle half ih =>
      have hhalf : half = size / 2 := rfl
      have hmid := htest (base + half) (by omega) (by omega)
      have hstep : search test base size =
          search test (if test (base + half) then base + half else base) (size - half) := by
        rw [search, dif_neg hle]
      rw [hstep]
      by_cases hpass : test (base + half) = true
      · have hlt := hmid.mp hpass
        rw [dif_pos hpass] at ih
        rw [if_pos hpass]
        refine ih (by omega) (by omega) (by omega) fun i hi hi' => ?_
        exact htest i (by omega) (by omega)
      · have hge : ¬ base + half < k := fun hlt => hpass (hmid.mpr hlt)
        rw [dif_neg hpass] at ih
        rw [if_neg hpass]
        refine ih (by omega) hlo (by omega) fun i hi hi' => ?_
        exact htest i hi (by omega)

/-- The answer counts the elements that pass. -/
theorem partitionPoint_eq (h : Divides test xs.toList) :
    partitionPoint xs test = (xs.toList.filter test).length := by
  unfold partitionPoint
  split
  next hempty =>
    rw [Array.isEmpty_iff.mp hempty]
    rfl
  next hne =>
    have hpos : 0 < xs.size := by
      rw [Array.isEmpty_iff_size_eq_zero] at hne
      omega
    have hle : (xs.toList.filter test).length ≤ xs.size := List.length_filter_le ..
    refine search_eq hpos (Nat.zero_le _) (by omega) fun i _ hi => ?_
    have hget : xs[i]? = some xs[i] := Array.getElem?_eq_getElem (by omega)
    rw [hget, Option.any_some]
    exact h.test_iff_lt (by rw [Array.getElem?_toList, hget])

end Wellbore.Bisection
