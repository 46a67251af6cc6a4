import Mathlib.Logic.Relation
import Mathlib.Data.List.Chain
import Wellbore.Slot

/-!
# Walks that come to an end

Every slot has at most one next slot, and whatever a table is asked about (the
chain to the wellhead, the members of a branch, the check for cycles) is a walk
along such a function, cut off after as many steps as the table has rows. Here it
is shown when the cut does nothing.

The measure is `EndsIn`, the number of steps to the end of the way. It falls by
one with every step, so a way that ends meets no slot twice; and if every step
stays below some size, pigeonhole makes the way shorter than that size. A walk
bounded by the size is then the whole way.

Moving the slots moves the ways: if every step is moved along, walks are too, and the
bound they are cut off at shows in none that ends before it. What other slots lead to does not
show in a walk at all. And where steps are left out, what is left of a walk is the front of it.

The last part is about two ways of one function. They never cross: either one
runs into the start of the other, or they meet at a slot that two different slots
lead to.
-/

namespace Wellbore.Slot

/-- One slot lies on the way of another. -/
abbrev Leads (next : Slot → Option Slot) : Slot → Slot → Prop :=
  Relation.ReflTransGen fun a b => next a = some b

/-- The way from a slot ends after exactly so many steps. -/
inductive EndsIn (next : Slot → Option Slot) : Nat → Slot → Prop where
  | here {a : Slot} (h : next a = none) : EndsIn next 0 a
  | there {k : Nat} {a b : Slot} (h : next a = some b) (hb : EndsIn next k b) :
      EndsIn next (k + 1) a

/-- The way from a slot ends. -/
def Ends (next : Slot → Option Slot) (a : Slot) : Prop := ∃ k, EndsIn next k a

variable {next : Slot → Option Slot} {a b : Slot} {k n size : Nat}

theorem Ends.here (h : next a = none) : Ends next a := ⟨0, .here h⟩

theorem Ends.there (h : next a = some b) (hb : Ends next b) : Ends next a := by
  obtain ⟨k, hk⟩ := hb
  exact ⟨k + 1, .there h hk⟩

theorem walk_of_none (h : next a = none) : walk next (n + 1) a = [a] := by
  rw [walk, h]

theorem walk_of_some (h : next a = some b) :
    walk next (n + 1) a = a :: walk next n b := by
  rw [walk, h]

theorem head?_walk : (walk next (n + 1) a).head? = some a := by
  rw [walk, List.head?_cons]

/-- Consecutive members of a walk are joined by a step. -/
theorem isChain_walk : ∀ {n : Nat} {a : Slot},
    (walk next n a).IsChain fun x y => next x = some y
  | 0, _ => by rw [walk]; exact .nil
  | 1, a => by
      rw [walk]
      cases h : next a with
      | none => exact .singleton a
      | some b => exact .singleton a
  | n + 2, a => by
      cases h : next a with
      | none => rw [walk_of_none h]; exact .singleton a
      | some b =>
          rw [walk_of_some h]
          have hb : (walk next (n + 1) b).IsChain fun x y => next x = some y := isChain_walk
          rw [walk] at hb ⊢
          exact .cons_cons h hb

theorem leads_of_mem_walk (h : b ∈ walk next n a) : Leads next a b := by
  induction n generalizing a with
  | zero => rw [walk] at h; cases h
  | succ n ih =>
      cases hn : next a with
      | none =>
          rw [walk_of_none hn, List.mem_singleton] at h
          rw [h]
      | some c =>
          rw [walk_of_some hn, List.mem_cons] at h
          rcases h with rfl | h
          · exact .refl
          · exact .head hn (ih h)

/-- A way stays inside whatever every step stays inside. -/
theorem Leads.induct {P : Slot → Prop} (h : Leads next a b) (ha : P a)
    (hstep : ∀ x y, P x → next x = some y → P y) : P b := by
  induction h with
  | refl => exact ha
  | tail _ hs ih => exact hstep _ _ ih hs

/-! ## How far off the end is -/

namespace EndsIn

theorem unique {j : Nat} (hj : EndsIn next j a) (hk : EndsIn next k a) : j = k := by
  induction hj generalizing k with
  | here h =>
      cases hk with
      | here _ => rfl
      | there h' _ => rw [h] at h'; cases h'
  | there h _ ih =>
      cases hk with
      | here h' => rw [h] at h'; cases h'
      | there h' hb' =>
          rw [h] at h'
          cases h'
          rw [ih hb']

/-- Every slot on a way that ends is itself so many steps off the end, and no more
than the slot it is reached from. -/
theorem of_leads (hk : EndsIn next k a) (h : Leads next a b) :
    ∃ j, j ≤ k ∧ EndsIn next j b := by
  induction h with
  | refl => exact ⟨k, Nat.le_refl k, hk⟩
  | tail _ hs ih =>
      obtain ⟨j, hj, hc⟩ := ih
      cases hc with
      | here h' => rw [hs] at h'; cases h'
      | there h' hb =>
          rw [hs] at h'
          cases h'
          exact ⟨_, by omega, hb⟩

/-- No step of a way that ends comes back. -/
theorem not_leads_back (hk : EndsIn next k a) (h : next a = some b) :
    ¬ Leads next b a := by
  intro hback
  cases hk with
  | here h' => rw [h] at h'; cases h'
  | there h' hb =>
      rw [h] at h'
      cases h'
      obtain ⟨j, hj, ha⟩ := hb.of_leads hback
      have := ha.unique (.there h hb)
      omega

/-- A way that ends meets no slot twice. -/
theorem nodup_walk (hk : EndsIn next k a) : (walk next n a).Nodup := by
  induction n generalizing a k with
  | zero => rw [walk]; exact .nil
  | succ n ih =>
      cases hn : next a with
      | none => rw [walk_of_none hn]; exact List.pairwise_singleton _ _
      | some b =>
          obtain ⟨j, _, hb⟩ := hk.of_leads (.single hn)
          rw [walk_of_some hn, List.nodup_cons]
          exact ⟨fun hmem => hk.not_leads_back hn (leads_of_mem_walk hmem), ih hb⟩

theorem length_walk (hk : EndsIn next k a) (hn : k < n) :
    (walk next n a).length = k + 1 := by
  obtain ⟨m, rfl⟩ : ∃ m, n = m + 1 := ⟨n - 1, by omega⟩
  induction hk generalizing m with
  | here h => rw [walk_of_none h, List.length_singleton]
  | there h _ ih =>
      obtain ⟨l, rfl⟩ : ∃ l, m = l + 1 := ⟨m - 1, by omega⟩
      rw [walk_of_some h, List.length_cons, ih _ (by omega)]

/-- A walk with room enough goes to the end. -/
theorem getLast?_walk (hk : EndsIn next k a) (hn : k < n) :
    ∃ z, (walk next n a).getLast? = some z ∧ next z = none := by
  obtain ⟨m, rfl⟩ : ∃ m, n = m + 1 := ⟨n - 1, by omega⟩
  induction hk generalizing m with
  | @here a h => exact ⟨a, by rw [walk_of_none h, List.getLast?_singleton], h⟩
  | there h _ ih =>
      obtain ⟨l, rfl⟩ : ∃ l, m = l + 1 := ⟨m - 1, by omega⟩
      obtain ⟨z, hz, hend⟩ := ih l (by omega)
      refine ⟨z, ?_, hend⟩
      rw [walk_of_some h, List.getLast?_cons, hz, Option.getD_some]

/-- A walk with room enough meets every slot on the way. -/
theorem mem_walk (hk : EndsIn next k a) (hn : k < n) (h : Leads next a b) :
    b ∈ walk next n a := by
  obtain ⟨m, rfl⟩ : ∃ m, n = m + 1 := ⟨n - 1, by omega⟩
  induction hk generalizing m with
  | here hnone =>
      rw [walk_of_none hnone, List.mem_singleton]
      rcases Relation.ReflTransGen.cases_head h with rfl | ⟨c, hc, _⟩
      · rfl
      · rw [hnone] at hc; cases hc
  | there hsome _ ih =>
      rw [walk_of_some hsome, List.mem_cons]
      rcases Relation.ReflTransGen.cases_head h with rfl | ⟨c, hc, hcb⟩
      · exact .inl rfl
      · rw [hsome] at hc
        cases hc
        obtain ⟨l, rfl⟩ : ∃ l, m = l + 1 := ⟨m - 1, by omega⟩
        exact .inr (ih hcb l (by omega))

/-- Steps that stay below a size leave room for fewer steps than that size. -/
theorem lt_size (hk : EndsIn next k a) (ha : a < size)
    (hin : ∀ x y, next x = some y → y < size) : k < size := by
  have hmem : ∀ x ∈ walk next (k + 1) a, x ∈ List.range size := by
    intro x hx
    rw [List.mem_range]
    exact (leads_of_mem_walk hx).induct (P := (· < size)) ha fun y z _ h => hin y z h
  have hle := hk.nodup_walk.length_le_of_subset hmem
  rw [hk.length_walk (Nat.lt_succ_self k), List.length_range] at hle
  exact hle

end EndsIn

/-- Leaving out steps does not keep a way from ending. -/
theorem Ends.of_fewer {next' : Slot → Option Slot} (h : Ends next a)
    (hsub : ∀ x y, next' x = some y → next x = some y) : Ends next' a := by
  obtain ⟨k, hk⟩ := h
  induction hk with
  | @here a hnone =>
      cases h' : next' a with
      | none => exact .here h'
      | some c => rw [hsub a c h'] at hnone; cases hnone
  | @there k a b hsome _ ih =>
      cases h' : next' a with
      | none => exact .here h'
      | some c =>
          rw [hsub a c h'] at hsome
          cases hsome
          exact .there h' ih

/-! ## Ways that are moved -/

section
variable {f : Slot → Slot} {next' : Slot → Option Slot} {m : Nat}

/-- Where every step is moved along, so is every walk. -/
theorem walk_map (h : ∀ x, next' (f x) = (next x).map f) :
    walk next' n (f a) = (walk next n a).map f := by
  induction n generalizing a with
  | zero => rw [walk, walk, List.map_nil]
  | succ n ih =>
      have ha := h a
      cases hn : next a with
      | none =>
          rw [hn, Option.map_none] at ha
          rw [walk_of_none ha, walk_of_none hn, List.map_singleton]
      | some b =>
          rw [hn, Option.map_some] at ha
          rw [walk_of_some ha, walk_of_some hn, List.map_cons, ih]

theorem EndsIn.map (hk : EndsIn next k a) (h : ∀ x, next' (f x) = (next x).map f) :
    EndsIn next' k (f a) := by
  induction hk with
  | @here a hnone => exact .here (by rw [h, hnone, Option.map_none])
  | @there k a b hsome _ ih => exact .there (by rw [h, hsome, Option.map_some]) ih

/-- How much room a walk is given does not show once it is enough. -/
theorem EndsIn.walk_eq (hk : EndsIn next k a) (hn : k < n) (hm : k < m) :
    walk next n a = walk next m a := by
  obtain ⟨n, rfl⟩ := Nat.exists_eq_add_one.mpr (Nat.zero_lt_of_lt hn)
  obtain ⟨m, rfl⟩ := Nat.exists_eq_add_one.mpr (Nat.zero_lt_of_lt hm)
  induction hk generalizing n m with
  | here hnone => rw [walk_of_none hnone, walk_of_none hnone]
  | @there k a b hsome _ ih =>
      obtain ⟨n, rfl⟩ : ∃ n', n = n' + 1 := ⟨n - 1, by omega⟩
      obtain ⟨m, rfl⟩ : ∃ m', m = m' + 1 := ⟨m - 1, by omega⟩
      rw [walk_of_some hsome, walk_of_some hsome, ih n (by omega) m (by omega)]

end

/-- Only the steps on the way itself matter to a walk. -/
theorem walk_congr {next' : Slot → Option Slot} (h : ∀ x, Leads next a x → next' x = next x) :
    walk next' n a = walk next n a := by
  induction n generalizing a with
  | zero => rw [walk, walk]
  | succ n ih =>
      have ha := h a .refl
      cases hn : next a with
      | none =>
          rw [hn] at ha
          rw [walk_of_none ha, walk_of_none hn]
      | some b =>
          rw [hn] at ha
          rw [walk_of_some ha, walk_of_some hn, ih fun x hx => h x (.head hn hx)]

/-! ## Steps that are left out -/

/-- Where some steps are left out, the walk stops early, and the walk with all steps goes on
from there. -/
theorem EndsIn.walk_append {next' : Slot → Option Slot} {j : Nat} (hk : EndsIn next k a)
    (hj : EndsIn next' j a) (hsub : ∀ x y, next' x = some y → next x = some y) (hkn : k < n)
    (hjn : j < n) :
    ∃ z, (walk next' n a).getLast? = some z ∧ next' z = none ∧
      walk next n a = walk next' n a ++ ((next z).map (walk next n)).getD [] := by
  obtain ⟨m, rfl⟩ := Nat.exists_eq_add_one.mpr (Nat.zero_lt_of_lt hkn)
  induction hj generalizing k with
  | @here a hnone =>
      refine ⟨a, by rw [walk_of_none hnone, List.getLast?_singleton], hnone, ?_⟩
      rw [walk_of_none hnone]
      cases hk with
      | here h => rw [walk_of_none h, h]; rfl
      | there h hb =>
          rw [walk_of_some h, h, hb.walk_eq (Nat.lt_of_succ_lt_succ hkn) (Nat.lt_of_succ_lt hkn)]
          rfl
  | @there j a b hsome hb' ih =>
      cases hk with
      | here h => rw [hsub a b hsome] at h; cases h
      | @there k a c h hb =>
          rw [hsub a b hsome, Option.some.injEq] at h
          rw [← h] at hb
          have hwalk' := hb'.walk_eq (Nat.lt_of_succ_lt_succ hjn) (Nat.lt_of_succ_lt hjn)
          obtain ⟨z, hz, hend, hwalk⟩ := ih hb (Nat.lt_of_succ_lt hkn) (Nat.lt_of_succ_lt hjn)
          refine ⟨z, ?_, hend, ?_⟩
          · rw [walk_of_some hsome, hwalk', List.getLast?_cons, hz, Option.getD_some]
          · rw [walk_of_some (hsub a b hsome), walk_of_some hsome, hwalk',
              hb.walk_eq (Nat.lt_of_succ_lt_succ hkn) (Nat.lt_of_succ_lt hkn), hwalk,
              List.cons_append]

/-! ## Two ways of one function -/

/-- Two ways that meet either run one into the start of the other, or come together
at a slot that two different slots lead to. -/
theorem Leads.meet {a' x : Slot} (h : Leads next a x) (h' : Leads next a' x) :
    Leads next a a' ∨ Leads next a' a ∨
      ∃ p p' y, p ≠ p' ∧ Leads next a p ∧ Leads next a' p' ∧
        next p = some y ∧ next p' = some y := by
  induction h with
  | refl => exact .inr (.inl h')
  | @tail w x hw hs ih =>
      rcases Relation.ReflTransGen.cases_tail h' with rfl | ⟨w', hw', hs'⟩
      · exact .inl (.tail hw hs)
      · by_cases heq : w = w'
        · subst heq; exact ih hw'
        · exact .inr (.inr ⟨w, w', x, heq, hw, hw', hs, hs'⟩)

/-- Of two slots on one way, one lies on the way of the other. -/
theorem Leads.total {x y : Slot} (hx : Leads next a x) (hy : Leads next a y) :
    Leads next x y ∨ Leads next y x := by
  induction hx with
  | refl => exact .inl hy
  | tail _ hs ih =>
      rcases ih with h | h
      · rcases Relation.ReflTransGen.cases_head h with rfl | ⟨c, hc, hcy⟩
        · exact .inr (.single hs)
        · rw [hs] at hc
          cases hc
          exact .inl hcy
      · exact .inr (h.tail hs)

end Wellbore.Slot
