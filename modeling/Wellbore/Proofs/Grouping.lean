import Mathlib.Algebra.GroupWithZero.Nat
import Mathlib.Data.List.Basic
import Mathlib.Data.List.Nodup

/-!
# A list divided by a key

Keys that are listed once each, and among which every element finds its own, divide a
list: each element belongs to one of them and to no other. So collecting the elements
key by key gives the list again up to its order, and the keys have as many elements
between them as the list has.

The keys can be read off what was collected, each as it is first met, and they come
out in the order they were in. When the keys themselves were noted as the elements of
a list came up, that is the order of their first elements.
-/

namespace Wellbore

variable {α κ : Type} [DecidableEq κ] {key : α → κ} {keys : List κ} {xs : List α}
  {k : κ}

/-- Collecting the elements by their keys loses none and repeats none. -/
theorem perm_flatMap_filter (hkeys : keys.Nodup) (hall : ∀ x ∈ xs, key x ∈ keys) :
    (keys.flatMap fun k => xs.filter fun x => key x = k).Perm xs := by
  induction keys generalizing xs with
  | nil =>
      cases xs with
      | nil => exact .nil
      | cons x rest => exact absurd (hall x List.mem_cons_self) List.not_mem_nil
  | cons k rest ih =>
      obtain ⟨hk, hrest⟩ := List.nodup_cons.mp hkeys
      have hothers : ∀ x ∈ xs.filter (fun x => !decide (key x = k)), key x ∈ rest := by
        intro x hx
        obtain ⟨hx, hne⟩ := List.mem_filter.mp hx
        exact (List.mem_cons.mp (hall x hx)).resolve_left (by simpa using hne)
      have hsplit : (rest.flatMap fun k' => xs.filter fun x => key x = k') =
          rest.flatMap fun k' =>
            (xs.filter fun x => !decide (key x = k)).filter fun x => key x = k' := by
        refine List.flatMap_congr fun k' hk' => ?_
        rw [List.filter_filter]
        refine List.filter_congr fun x _ => ?_
        by_cases heq : key x = k'
        · have hne : key x ≠ k := fun h => hk (by rw [← h, heq]; exact hk')
          simp [heq, heq ▸ hne]
        · simp [heq]
      rw [List.flatMap_cons, hsplit]
      exact ((ih hrest hothers).append_left _).trans (List.filter_append_perm _ xs)

theorem sum_length_filter (hkeys : keys.Nodup) (hall : ∀ x ∈ xs, key x ∈ keys) :
    (keys.map fun k => (xs.filter fun x => key x = k).length).sum = xs.length := by
  rw [← (perm_flatMap_filter hkeys hall).length_eq, List.length_flatMap]

/-- Of what was collected by the keys, the elements of one key are those of the list, in its
order. -/
theorem filter_flatMap_filter (hkeys : keys.Nodup) (hk : k ∈ keys) :
    ((keys.flatMap fun k => xs.filter fun x => key x = k).filter fun x => key x = k) =
      xs.filter fun x => key x = k := by
  have hone : ∀ k', ((xs.filter fun x => key x = k').filter fun x => key x = k) =
      if k' = k then xs.filter fun x => key x = k else [] := by
    intro k'
    rw [List.filter_filter]
    split
    · next heq => simp only [heq, Bool.and_self]
    · next hne =>
        rw [List.filter_eq_nil_iff]
        simp only [Bool.and_eq_true, decide_eq_true_eq, not_and]
        exact fun x _ hx hx' => hne (hx'.symm.trans hx)
  rw [List.filter_flatMap, List.flatMap_congr fun k' _ => hone k']
  induction keys with
  | nil => exact absurd hk List.not_mem_nil
  | cons k' rest ih =>
      obtain ⟨hk', hrest⟩ := List.nodup_cons.mp hkeys
      rw [List.flatMap_cons]
      rcases List.mem_cons.mp hk with rfl | hk
      · have hnone : (rest.flatMap fun k' =>
            if k' = k then xs.filter fun x => key x = k else []) = [] := by
          rw [List.flatMap_eq_nil_iff]
          exact fun k' hmem => if_neg fun heq : k' = k => hk' (heq ▸ hmem)
        rw [if_pos rfl, hnone, List.append_nil]
      · rw [if_neg fun heq : k' = k => hk' (heq ▸ hk), List.nil_append, ih hrest hk]

/-- Keys under which something was collected are met again in their order. -/
theorem eraseDups_map_flatMap {f : κ → List α} (hkeys : keys.Nodup)
    (hne : ∀ k ∈ keys, f k ≠ []) (hkey : ∀ k ∈ keys, ∀ x ∈ f k, key x = k) :
    ((keys.flatMap f).map key).eraseDups = keys := by
  induction keys with
  | nil => rfl
  | cons k rest ih =>
      obtain ⟨hk, hrest⟩ := List.nodup_cons.mp hkeys
      obtain ⟨hnek, hne⟩ := List.forall_mem_cons.mp hne
      obtain ⟨hkeyk, hkey⟩ := List.forall_mem_cons.mp hkey
      obtain ⟨x, tail, hx⟩ := List.exists_cons_of_ne_nil hnek
      rw [hx] at hkeyk
      obtain ⟨hkx, hktail⟩ := List.forall_mem_cons.mp hkeyk
      -- whatever else was collected under the key goes with its first element
      have hgone : ((tail.map key).filter fun k' => !k' == k) = [] := by
        rw [List.filter_eq_nil_iff]
        simpa using hktail
      have hkept : (((rest.flatMap f).map key).filter fun k' => !k' == k) =
          (rest.flatMap f).map key := by
        rw [List.filter_eq_self]
        intro k' hk'
        obtain ⟨y, hy, rfl⟩ := List.mem_map.mp hk'
        obtain ⟨k', hmem, hy⟩ := List.mem_flatMap.mp hy
        rw [hkey k' hmem y hy]
        simpa using fun heq : k' = k => hk (heq ▸ hmem)
      rw [List.flatMap_cons, hx, List.map_append, List.map_cons, List.cons_append,
        List.eraseDups_cons, hkx, List.filter_append, hgone, hkept, List.nil_append,
        ih hrest hne hkey]

/-- Keys that are noted as their elements come up: before whatever has the later key comes an
element that has the earlier one. -/
theorem pairwise_eraseDups_map {r : α → α → Prop} (h : xs.Pairwise r) :
    (xs.map key).eraseDups.Pairwise fun k k' =>
      ∀ y ∈ xs, key y = k' → ∃ x ∈ xs, key x = k ∧ r x y := by
  induction hn : xs.length using Nat.strongRecOn generalizing xs with
  | ind n ih =>
      cases xs with
      | nil => exact .nil
      | cons x rest =>
          obtain ⟨hx, hrest⟩ := List.pairwise_cons.mp h
          -- what is noted after the key of the head are the keys of the others
          let others := rest.filter fun y => !key y == key x
          have hmem : ∀ y ∈ x :: rest, key y ≠ key x → y ∈ others := by
            intro y hy hne
            have hy : y ∈ rest := (List.mem_cons.mp hy).resolve_left fun h => hne (h ▸ rfl)
            exact List.mem_filter.mpr ⟨hy, by simpa using hne⟩
          have hne : ∀ k ∈ (others.map key).eraseDups, k ≠ key x := by
            intro k hk
            rw [List.mem_eraseDups] at hk
            obtain ⟨y, hy, rfl⟩ := List.mem_map.mp hk
            simpa using (List.mem_filter.mp hy).2
          have hnoted : ((x :: rest).map key).eraseDups =
              key x :: (others.map key).eraseDups := by
            rw [List.map_cons, List.eraseDups_cons, List.filter_map]
            rfl
          have hshorter : others.length < n := by
            rw [← hn, List.length_cons]
            exact Nat.lt_succ_of_le (List.length_filter_le _ _)
          rw [hnoted, List.pairwise_cons]
          constructor
          · intro k hk y hy hky
            have hy := hmem y hy (hky ▸ hne k hk)
            exact ⟨x, List.mem_cons_self, rfl, hx y (List.mem_filter.mp hy).1⟩
          · refine (ih _ hshorter (hrest.sublist List.filter_sublist) rfl).imp_of_mem ?_
            intro k k' _ hk' hfirst y hy hky
            obtain ⟨x', hx', hkx', hr⟩ := hfirst y (hmem y hy (hky ▸ hne k' hk')) hky
            exact ⟨x', List.mem_cons_of_mem _ (List.mem_filter.mp hx').1, hkx', hr⟩

end Wellbore
