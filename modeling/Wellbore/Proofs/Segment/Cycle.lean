import Wellbore.Proofs.Walk
import Wellbore.Proofs.Segment.Table
import Wellbore.Segment.Linking

/-!
# The check for cycles finds them all and nothing else

`outletCycle?` walks from every segment, stops at slots it has seen to end, and
gives up after as many steps as the table has rows. Two things could go wrong: a
note of an earlier walk could hide a cycle, or the limit could cut off a chain
that only was long.

Neither can. A slot is noted only after the whole walk came to an end, so every
note is true (`Settled`); and a chain of a sound table that ends is shorter than
the table, whatever the notes are.
-/

namespace Wellbore

namespace SegmentTable

open Slot (EndsIn Ends)

variable {t : SegmentTable} {settled : Array Bool} {a : Slot} {n : Nat}

/-- Only slots whose chains end are noted. -/
def Settled (t : SegmentTable) (settled : Array Bool) : Prop :=
  ∀ a, settled.getD a false = true → Ends t.outletSlot? a

theorem Settled.none_noted : t.Settled (Array.replicate n false) := by
  intro a h
  rw [Array.getD_eq_getD_getElem?, Array.getElem?_replicate] at h
  split at h <;> cases h

theorem getD_setIfInBounds {b : Slot}
    (h : (settled.setIfInBounds b true).getD a false = true) :
    a = b ∨ settled.getD a false = true := by
  rw [Array.getD_eq_getD_getElem?, Array.getElem?_setIfInBounds] at h
  rw [Array.getD_eq_getD_getElem?]
  split at h
  · next heq => exact .inl heq.symm
  · exact .inr h

theorem Settled.settle {slots : List Slot} (h : t.Settled settled)
    (hslots : ∀ a ∈ slots, Ends t.outletSlot? a) : t.Settled (settle settled slots) := by
  induction slots generalizing settled with
  | nil => exact h
  | cons b rest ih =>
      have hb : t.Settled (settled.setIfInBounds b true) := by
        intro a ha
        rcases getD_setIfInBounds ha with rfl | ha
        · exact hslots a List.mem_cons_self
        · exact h a ha
      exact ih hb fun a ha => hslots a (List.mem_cons_of_mem _ ha)

/-- A walk that was not given up came to an end, and so did every slot on it. -/
theorem ends_of_unsettledFrom (h : t.Settled settled) : ∀ {n : Nat} {a : Slot}
    {walked : List Slot}, t.unsettledFrom settled n a = some walked →
    Ends t.outletSlot? a ∧ ∀ b ∈ walked, Ends t.outletSlot? b := by
  intro n
  induction n with
  | zero =>
      intro a walked hw
      rw [unsettledFrom] at hw
      split at hw
      · next ha =>
          cases hw
          exact ⟨h a ha, fun b hb => absurd hb List.not_mem_nil⟩
      · cases hw
  | succ n ih =>
      intro a walked hw
      rw [unsettledFrom] at hw
      split at hw
      · next ha =>
          cases hw
          exact ⟨h a ha, fun b hb => absurd hb List.not_mem_nil⟩
      · split at hw
        · next b hb =>
            obtain ⟨rest, hrest, rfl⟩ := Option.map_eq_some_iff.mp hw
            obtain ⟨hends, hall⟩ := ih hrest
            have ha : Ends t.outletSlot? a := hends.there hb
            exact ⟨ha, fun c hc => (List.mem_cons.mp hc).elim (· ▸ ha) (hall c)⟩
        · next hnone =>
            cases hw
            have ha : Ends t.outletSlot? a := .here hnone
            exact ⟨ha, fun c hc => List.mem_singleton.mp hc ▸ ha⟩

/-- A walk with room enough is not given up. -/
theorem unsettledFrom_isSome {k : Nat} (hk : EndsIn t.outletSlot? k a) : ∀ {n : Nat},
    k < n → ∃ walked, t.unsettledFrom settled n a = some walked := by
  induction hk with
  | here h =>
      intro n hn
      obtain ⟨m, rfl⟩ : ∃ m, n = m + 1 := ⟨n - 1, by omega⟩
      rw [unsettledFrom, h]
      split
      · exact ⟨[], rfl⟩
      · exact ⟨_, rfl⟩
  | there h _ ih =>
      intro n hn
      obtain ⟨m, rfl⟩ : ∃ m, n = m + 1 := ⟨n - 1, by omega⟩
      obtain ⟨walked, hw⟩ := ih (n := m) (by omega)
      rw [unsettledFrom, h]
      split
      · exact ⟨[], rfl⟩
      · simp only [hw, Option.map_some]
        exact ⟨_, rfl⟩

theorem Sound.outletSlot?_lt (hs : t.Sound) {a b : Slot} (h : t.outletSlot? a = some b) :
    b < t.size := (hs.matched h).lt

/-- What the check for cycles answers: nothing if every chain ends, else the first
segment whose chain does not. -/
theorem cycleFrom?_cases (hs : t.Sound) {entries : List (Slot × Segment)}
    (hin : ∀ p ∈ entries, p.1 < t.size) (h : t.Settled settled) :
    ((∀ p ∈ entries, Ends t.outletSlot? p.1) ∧ t.cycleFrom? settled entries = none) ∨
    ∃ before p after, entries = before ++ p :: after ∧
      (∀ q ∈ before, Ends t.outletSlot? q.1) ∧ ¬ Ends t.outletSlot? p.1 ∧
      t.cycleFrom? settled entries = some (.outletCycle p.2.id t.size) := by
  induction entries generalizing settled with
  | nil => exact .inl ⟨fun p hp => absurd hp List.not_mem_nil, rfl⟩
  | cons p rest ih =>
      obtain ⟨slot, s⟩ := p
      rw [cycleFrom?]
      split
      · next walked hw =>
          obtain ⟨hends, hwalked⟩ := ends_of_unsettledFrom h hw
          have hrest := ih (fun q hq => hin q (List.mem_cons_of_mem _ hq)) (h.settle hwalked)
          rcases hrest with ⟨hall, hnone⟩ | ⟨before, q, after, rfl, hbefore, hq, hsome⟩
          · exact .inl ⟨List.forall_mem_cons.mpr ⟨hends, hall⟩, hnone⟩
          · exact .inr ⟨(slot, s) :: before, q, after, rfl,
              List.forall_mem_cons.mpr ⟨hends, hbefore⟩, hq, hsome⟩
      · next hgiven =>
          refine .inr ⟨[], (slot, s), rest, rfl, fun q hq => absurd hq List.not_mem_nil, ?_, rfl⟩
          rintro ⟨k, hk⟩
          have hlt := hk.lt_size (hin _ List.mem_cons_self) fun _ _ => hs.outletSlot?_lt
          obtain ⟨walked, hw⟩ : ∃ walked, t.unsettledFrom settled t.size slot = some walked :=
            unsettledFrom_isSome hk hlt
          rw [hgiven] at hw
          cases hw

theorem outletCycle?_eq_none (hs : t.Sound) :
    t.outletCycle? = none ↔ ∀ a, a < t.size → Ends t.outletSlot? a := by
  have hin : ∀ p ∈ t.entries, p.1 < t.size := fun p hp => get?_lt (mem_entries.mp hp)
  have hnoted : t.Settled (Array.replicate t.size false) := .none_noted
  rw [outletCycle?]
  rcases cycleFrom?_cases hs hin hnoted with
    ⟨hall, hnone⟩ | ⟨before, p, after, heq, _, hp, hsome⟩
  · refine ⟨fun _ a ha => ?_, fun _ => hnone⟩
    obtain ⟨s, hs⟩ := get?_of_lt ha
    exact hall (a, s) (mem_entries.mpr hs)
  · rw [hsome]
    refine ⟨fun h => (Option.some_ne_none _ h).elim, fun h => absurd (h p.1 (hin p ?_)) hp⟩
    rw [heq]
    exact List.mem_append_right _ List.mem_cons_self

end SegmentTable

end Wellbore
