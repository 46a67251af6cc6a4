/-!
# Maps in key order

A map is a list of keys and values in strictly growing key order. There is one
list for each content, so two maps that answer every look-up alike are equal.
-/

namespace Wellbore

open Std (TransOrd LawfulEqOrd TransCmp LawfulEqCmp OrientedCmp)

/-- Strictly growing keys. -/
def KeysGrow {κ ν : Type} [Ord κ] (entries : List (κ × ν)) : Prop :=
  entries.Pairwise fun a b => compare a.1 b.1 = .lt

/-- Values by key, in the order of the keys. -/
structure SortedMap (κ ν : Type) [Ord κ] where
  entries : List (κ × ν) := []
  grows : KeysGrow entries := by exact List.Pairwise.nil

namespace SortedMap

section
variable {κ ν : Type} [Ord κ]

/-- Puts an entry at its place, in the stead of one with the same key. -/
def place (k : κ) (v : ν) : List (κ × ν) → List (κ × ν)
  | [] => [(k, v)]
  | (k', v') :: rest =>
    match compare k k' with
    | .lt => (k, v) :: (k', v') :: rest
    | .eq => (k, v) :: rest
    | .gt => (k', v') :: place k v rest

/-- A placed entry brings no key but its own. -/
theorem mem_place {k : κ} {v : ν} {e : κ × ν} {entries : List (κ × ν)}
    (h : e ∈ place k v entries) : e = (k, v) ∨ e ∈ entries := by
  induction entries with
  | nil => simp_all [place]
  | cons hd rest ih =>
    obtain ⟨k', v'⟩ := hd
    unfold place at h
    split at h <;> simp_all <;> grind

/-- Placing an entry keeps the keys growing. -/
theorem keysGrow_place [TransOrd κ] [LawfulEqOrd κ] {k : κ} {v : ν}
    {entries : List (κ × ν)} (h : KeysGrow entries) : KeysGrow (place k v entries) := by
  induction entries with
  | nil => simp [place, KeysGrow]
  | cons hd rest ih =>
    obtain ⟨k', v'⟩ := hd
    simp only [KeysGrow, List.pairwise_cons] at h
    unfold place
    split
    next hlt =>
      simp only [KeysGrow, List.pairwise_cons, List.mem_cons]
      refine ⟨?_, h⟩
      rintro e (rfl | he)
      · exact hlt
      · exact TransCmp.lt_trans hlt (h.1 e he)
    next heq =>
      have hk := LawfulEqCmp.eq_of_compare heq
      subst hk
      simp only [KeysGrow, List.pairwise_cons]
      exact h
    next hgt =>
      simp only [KeysGrow, List.pairwise_cons]
      refine ⟨?_, ih h.2⟩
      intro e he
      rcases mem_place he with rfl | he
      · exact OrientedCmp.lt_of_gt hgt
      · exact h.1 e he

def get? (m : SortedMap κ ν) (k : κ) : Option ν :=
  (m.entries.find? fun e => compare e.1 k == .eq).map (·.2)

theorem mem_of_get? [LawfulEqOrd κ] {m : SortedMap κ ν} {k : κ} {v : ν}
    (h : m.get? k = some v) : (k, v) ∈ m.entries := by
  obtain ⟨e, he, rfl⟩ := Option.map_eq_some_iff.mp h
  have hk := List.find?_some he
  rw [beq_iff_eq] at hk
  rw [← LawfulEqCmp.eq_of_compare hk]
  exact List.mem_of_find?_eq_some he

def contains (m : SortedMap κ ν) (k : κ) : Bool := (m.get? k).isSome

def keys (m : SortedMap κ ν) : List κ := m.entries.map (·.1)

instance : Inhabited (SortedMap κ ν) := ⟨{}⟩

instance [DecidableEq κ] [DecidableEq ν] : DecidableEq (SortedMap κ ν) := fun a b =>
  if h : a.entries = b.entries then
    .isTrue (by cases a; cases b; cases h; rfl)
  else .isFalse fun hab => h (by rw [hab])

variable [TransOrd κ] [LawfulEqOrd κ]

/-- Gives a key a value, in the stead of the one it had. -/
def insert (m : SortedMap κ ν) (k : κ) (v : ν) : SortedMap κ ν :=
  ⟨place k v m.entries, keysGrow_place m.grows⟩

/-- Gives a key a value that depends on the one it had. -/
def update (m : SortedMap κ ν) (k : κ) (f : Option ν → ν) : SortedMap κ ν :=
  m.insert k (f (m.get? k))

end

/-! ## Looking up after an insertion

An insertion shows under its own key only. -/

section
variable {κ ν : Type} [Ord κ] {k k' : κ} {v : ν}

theorem get?_empty : ({} : SortedMap κ ν).get? k = none := rfl

variable [LawfulEqOrd κ]

theorem compare_beq_eq : (compare k k' == .eq) = true ↔ k = k' := by
  rw [beq_iff_eq]
  exact Std.LawfulEqOrd.compare_eq_iff_eq

theorem find?_place_self (entries : List (κ × ν)) :
    (place k v entries).find? (fun e => compare e.1 k == .eq) = some (k, v) := by
  induction entries with
  | nil => simp [place]
  | cons hd rest ih =>
      obtain ⟨k', v'⟩ := hd
      unfold place
      split
      next => simp
      next => simp
      next hgt =>
        have hne : (compare k' k == .eq) = false := by
          rw [Bool.eq_false_iff]
          intro heq
          rw [compare_beq_eq.mp heq, Std.compare_self] at hgt
          cases hgt
        simp [hne, ih]

theorem find?_place_of_ne (h : k' ≠ k) (entries : List (κ × ν)) :
    (place k v entries).find? (fun e => compare e.1 k' == .eq) =
      entries.find? (fun e => compare e.1 k' == .eq) := by
  have hne : (compare k k' == .eq) = false := by
    rw [Bool.eq_false_iff]
    exact fun heq => h (compare_beq_eq.mp heq).symm
  induction entries with
  | nil => simp [place, hne]
  | cons hd rest ih =>
      obtain ⟨k'', v''⟩ := hd
      unfold place
      split
      next => simp [hne]
      next heq =>
        have hk : k = k'' := Std.LawfulEqOrd.compare_eq_iff_eq.mp heq
        subst hk
        simp [hne]
      next =>
        rw [List.find?_cons, List.find?_cons, ih]

variable [TransOrd κ] {m : SortedMap κ ν}

theorem get?_insert_self : (m.insert k v).get? k = some v := by
  unfold get? insert
  rw [find?_place_self]
  rfl

theorem get?_insert_of_ne (h : k' ≠ k) : (m.insert k v).get? k' = m.get? k' := by
  unfold get? insert
  rw [find?_place_of_ne h]

end

end SortedMap

end Wellbore
