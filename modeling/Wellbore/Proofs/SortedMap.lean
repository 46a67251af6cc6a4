import Wellbore.SortedMap
import Mathlib.Data.List.Sort

/-!
# Looking up in a map in key order

What stands in a map is what a look-up finds, so two maps that answer every look-up alike are
equal. Changing every value of a map changes every answer, and nothing else.
-/

namespace Wellbore

namespace SortedMap

open Std (TransOrd LawfulEqOrd)

variable {κ ν : Type} [Ord κ] {k k' : κ} {v : ν} {m : SortedMap κ ν}

theorem pairwise_keys (m : SortedMap κ ν) : m.keys.Pairwise fun a b => compare a b = .lt :=
  List.pairwise_map.mpr m.grows

section
variable [LawfulEqOrd κ]

theorem mem_keys : k ∈ m.keys ↔ ∃ v, m.get? k = some v := by
  constructor
  · intro h
    obtain ⟨e, he, rfl⟩ := List.mem_map.mp h
    cases hfind : m.entries.find? fun e' => compare e'.1 e.1 == .eq with
    | none => exact absurd (compare_beq_eq.mpr rfl) (List.find?_eq_none.mp hfind e he)
    | some e' => exact ⟨e'.2, by rw [get?, hfind, Option.map_some]⟩
  · rintro ⟨v, h⟩
    exact List.mem_map.mpr ⟨(k, v), mem_of_get? h, rfl⟩

theorem nodup_keys (m : SortedMap κ ν) : m.keys.Nodup := by
  refine m.pairwise_keys.imp fun hlt heq => ?_
  rw [heq, Std.compare_self] at hlt
  cases hlt

/-- What stands in the map is what a look-up finds. -/
theorem mem_entries {e : κ × ν} : e ∈ m.entries ↔ m.get? e.1 = some e.2 := by
  refine ⟨fun he => ?_, mem_of_get?⟩
  obtain ⟨v, hv⟩ := mem_keys.mp (List.mem_map_of_mem he)
  have heq : (e.1, v) = e :=
    List.inj_on_of_nodup_map (nodup_keys m) (mem_of_get? hv) he rfl
  rw [hv, ← heq]

end

variable [TransOrd κ] [LawfulEqOrd κ]

/-- Maps that answer every look-up alike are equal. -/
theorem ext_get? {m m' : SortedMap κ ν} (h : ∀ k, m.get? k = m'.get? k) : m = m' := by
  have hirrefl : Std.Irrefl fun a b : κ × ν => compare a.1 b.1 = .lt :=
    ⟨fun a hlt => by rw [Std.compare_self] at hlt; cases hlt⟩
  have hantisymm : Std.Antisymm fun a b : κ × ν => compare a.1 b.1 = .lt :=
    ⟨fun a b hlt hgt => absurd hgt (Std.OrientedCmp.not_lt_of_lt hlt)⟩
  have hentries : m.entries = m'.entries :=
    m.grows.eq_of_mem_iff m'.grows fun e => by rw [mem_entries, mem_entries, h]
  cases m
  cases m'
  cases hentries
  rfl

theorem get?_update_self {f : Option ν → ν} : (m.update k f).get? k = some (f (m.get? k)) :=
  get?_insert_self

theorem get?_update_of_ne {f : Option ν → ν} (h : k' ≠ k) :
    (m.update k f).get? k' = m.get? k' :=
  get?_insert_of_ne h

/-! ## Changing every value -/

section
variable {ν' : Type} {f : ν → ν'}

/-- The map with a function applied to every value. -/
def map (f : ν → ν') (m : SortedMap κ ν) : SortedMap κ ν' where
  entries := m.entries.map fun e => (e.1, f e.2)
  grows := by
    unfold KeysGrow
    rw [List.pairwise_map]
    exact m.grows

omit [TransOrd κ] [LawfulEqOrd κ] in
theorem keys_map : (m.map f).keys = m.keys := by
  unfold keys map
  rw [List.map_map]
  rfl

omit [TransOrd κ] [LawfulEqOrd κ] in
theorem get?_map : (m.map f).get? k = (m.get? k).map f := by
  unfold get? map
  rw [List.find?_map, Option.map_map, Option.map_map]
  rfl

theorem map_insert : (m.insert k v).map f = (m.map f).insert k (f v) := by
  refine ext_get? fun k' => ?_
  by_cases hk : k' = k
  · subst hk
    rw [get?_map, get?_insert_self, get?_insert_self, Option.map_some]
  · rw [get?_map, get?_insert_of_ne hk, get?_insert_of_ne hk, get?_map]

theorem map_update {g : Option ν → ν} {g' : Option ν' → ν'}
    (hg : ∀ o, f (g o) = g' (o.map f)) :
    (m.update k g).map f = (m.map f).update k g' := by
  unfold update
  rw [map_insert, hg, get?_map]

end

end SortedMap

end Wellbore
