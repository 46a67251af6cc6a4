import Wellbore.Proofs.Branch.Partition
import Wellbore.Proofs.Segment.Fresh

/-!
# Branches of rows that stand elsewhere

Two tables can hold the same rows in use at different slots: in another order, or with
rows between them that are not in use. `MovedBy` says that one holds the rows of the
other where a function `f` moves them, with links that are moved along. Then `f` moves
whatever decomposing looks at: which slots are fed, the starts, the members of a chain,
its junction and its way to the wellhead.

The chains are cut off at the size of their table, and the sizes may differ. `Carried`
asks that this does not show, which is so when the sizes are equal, and also when all
chains end.

What is left of a branch when the slots are forgotten is its `Trace`, and a branch that
is moved keeps it.
-/

namespace Wellbore

/-- A branch as the numbers of its segments tell it. -/
structure Trace where
  branchId : Int32
  start : Option Int32
  members : List Int32
  junction : Option Int32
  path : List Int32
deriving DecidableEq, Repr

namespace Branch

/-- The branch when its start has been moved. -/
def move (f : Slot → Slot) (b : Branch) : Branch := { b with start := f b.start }

/-- What the branch tells without naming a slot. -/
def trace (b : Branch) (t : SegmentTable) : Trace where
  branchId := b.branchId
  start := (t.get? b.start).map (·.id)
  members := t.idsAt (b.walk t)
  junction := (b.junction? t).bind fun s => (t.get? s).map (·.id)
  path := t.idsAt (b.path t)

theorem move_injective {f : Slot → Slot} (h : Function.Injective f) :
    Function.Injective (move f) := by
  rintro ⟨id, start⟩ ⟨id', start'⟩ heq
  simp only [move, mk.injEq] at heq
  rw [heq.1, h heq.2]

end Branch

namespace SegmentTable

open Slot (EndsIn Ends)

variable {f : Slot → Slot} {t u : SegmentTable} {a b : Slot} {s : Segment} {id : Int32}
  {branch : Branch}

/-- The rows of `t` stand in `u` where `f` moves them, linked as they were, and no other
row of `u` is in use. -/
structure MovedBy (f : Slot → Slot) (t u : SegmentTable) : Prop where
  inj : Function.Injective f
  row : ∀ a, t.written[a]? = u.written[f a]?
  inUse : ∀ {b s}, u.get? b = some s → s.active = true → ∃ a, f a = b
  outlet : ∀ a, u.outletSlot? (f a) = (t.outletSlot? a).map f

/-- Links by number move with the rows. -/
theorem LinkedByNumber.movedBy (ht : t.LinkedByNumber) (hu : u.LinkedByNumber)
    (hinj : Function.Injective f) (hrow : ∀ a, t.written[a]? = u.written[f a]?)
    (hnamed : Named t.written ↔ Named u.written)
    (hinUse : ∀ r ∈ u.written, r.segment.active = true → r ∈ t.written) : MovedBy f t u where
  inj := hinj
  row := hrow
  inUse {b s} hb hact := by
    have hbrow : u.written[b]? = some s.toSegmentRow := written_eq_some.mpr ⟨s, hb, rfl⟩
    obtain ⟨a, ha⟩ := List.getElem?_of_mem (hinUse _ (List.mem_of_getElem? hbrow) hact)
    rw [hrow] at ha
    exact ⟨a, written_unique ha hbrow rfl⟩
  outlet a := by
    refine Option.ext fun c => ?_
    rw [hu.outlet, Option.map_eq_some_iff]
    constructor
    · rintro ⟨hn, r, q, hr, hq, hw, hid⟩
      have hnt := hnamed.mpr hn
      rw [← hrow] at hr
      obtain ⟨-, q', hq', hid'⟩ := (hnt r (List.mem_of_getElem? hr)).resolve_left hw
      obtain ⟨b, hb⟩ := List.getElem?_of_mem hq'
      refine ⟨b, ht.outlet.mpr ⟨hnt, r, q', hr, hb, hw, hid'⟩, ?_⟩
      rw [hrow] at hb
      exact written_unique hb hq (hid'.trans hid.symm)
    · rintro ⟨b, hb, rfl⟩
      obtain ⟨hn, r, q, hr, hq, hw, hid⟩ := ht.outlet.mp hb
      rw [hrow] at hr hq
      exact ⟨hnamed.mp hn, r, q, hr, hq, hw, hid⟩

namespace MovedBy

/-! ## Rows -/

/-- What a row says is said where it was moved. -/
theorem map_row {β : Type} (h : MovedBy f t u) (g : SegmentRow → β) (a : Slot) :
    (u.get? (f a)).map (fun s => g s.toSegmentRow) =
      (t.get? a).map fun s => g s.toSegmentRow := by
  have hrow := congrArg (Option.map g) (h.row a)
  rw [getElem?_written, getElem?_written, Option.map_map, Option.map_map] at hrow
  exact hrow.symm

theorem get?_move (h : MovedBy f t u) (ha : t.get? a = some s) :
    ∃ s', u.get? (f a) = some s' ∧ s'.toSegmentRow = s.toSegmentRow := by
  have hrow := h.map_row (fun r => r) a
  rw [ha, Option.map_some] at hrow
  exact Option.map_eq_some_iff.mp hrow

theorem get?_of_move (h : MovedBy f t u) (ha : u.get? (f a) = some s) :
    ∃ s', t.get? a = some s' ∧ s'.toSegmentRow = s.toSegmentRow := by
  have hrow := h.map_row (fun r => r) a
  rw [ha, Option.map_some] at hrow
  exact Option.map_eq_some_iff.mp hrow.symm

/-- A row with some property stands where it was moved if it stood there before. -/
theorem exists_row (h : MovedBy f t u) (p : SegmentRow → Prop) :
    (∃ s, u.get? (f a) = some s ∧ p s.toSegmentRow) ↔
      ∃ s, t.get? a = some s ∧ p s.toSegmentRow := by
  constructor
  · rintro ⟨s, hs, hp⟩
    obtain ⟨s', hs', hrow⟩ := h.get?_of_move hs
    exact ⟨s', hs', by rw [hrow]; exact hp⟩
  · rintro ⟨s, hs, hp⟩
    obtain ⟨s', hs', hrow⟩ := h.get?_move hs
    exact ⟨s', hs', by rw [hrow]; exact hp⟩

theorem any_branchId (h : MovedBy f t u) (a : Slot) :
    ((u.get? (f a)).any fun s => s.branchId == id) =
      (t.get? a).any fun s => s.branchId == id := by
  rw [Bool.eq_iff_iff, Option.any_eq_true, Option.any_eq_true]
  exact h.exists_row fun r => (r.branchId == id) = true

theorem idsAt_map (h : MovedBy f t u) (slots : List Slot) :
    u.idsAt (slots.map f) = t.idsAt slots := by
  rw [idsAt, List.filterMap_map]
  exact congrArg (fun g => slots.filterMap g) (funext fun a => h.map_row (·.id) a)

theorem idAt (h : MovedBy f t u) (a : Slot) : u.idAt (f a) = t.idAt a := by
  rw [SegmentTable.idAt, SegmentTable.idAt]
  exact congrArg (fun id? => Option.getD id? 0) (h.map_row (·.id) a)

/-! ## Starts -/

theorem nextInBranch? (h : MovedBy f t u) (id : Int32) (a : Slot) :
    u.nextInBranch? id (f a) = (t.nextInBranch? id a).map f := by
  rw [SegmentTable.nextInBranch?, SegmentTable.nextInBranch?, h.outlet]
  cases t.outletSlot? a with
  | none => rfl
  | some b =>
      rw [Option.map_some, Option.filter_some, Option.filter_some, h.any_branchId]
      split <;> rfl

theorem isFed (h : MovedBy f t u) (b : Slot) : u.isFed (f b) = t.isFed b := by
  have hfeeds : ∀ a id, u.nextInBranch? id (f a) = some (f b) ↔ t.nextInBranch? id a = some b := by
    intro a id
    rw [h.nextInBranch?, Option.map_eq_some_iff]
    exact ⟨fun ⟨_, hstep, hb⟩ => h.inj hb ▸ hstep, fun hstep => ⟨b, hstep, rfl⟩⟩
  rw [Bool.eq_iff_iff, isFed_iff, isFed_iff]
  constructor
  · rintro ⟨c, s, hc, hact, hstep⟩
    obtain ⟨a, rfl⟩ := h.inUse hc hact
    rw [hfeeds] at hstep
    exact ⟨a, (h.exists_row fun r => r.segment.active = true ∧
      t.nextInBranch? r.branchId a = some b).mp ⟨s, hc, hact, hstep⟩⟩
  · rintro ⟨a, s, ha, hact, hstep⟩
    rw [← hfeeds] at hstep
    exact ⟨f a, (h.exists_row fun r => r.segment.active = true ∧
      u.nextInBranch? r.branchId (f a) = some (f b)).mpr ⟨s, ha, hact, hstep⟩⟩

theorem move_mem_starts (h : MovedBy f t u) :
    branch.move f ∈ u.starts ↔ branch ∈ t.starts := by
  rw [mem_starts, mem_starts]
  simp only [Branch.move, h.isFed]
  exact and_congr_left fun _ =>
    h.exists_row fun r => r.segment.active = true ∧ r.branchId = branch.branchId

theorem exists_move (h : MovedBy f t u) (hb : branch ∈ u.starts) :
    ∃ branch' ∈ t.starts, branch'.move f = branch := by
  obtain ⟨⟨s, hs, hact, -⟩, -⟩ := mem_starts.mp hb
  obtain ⟨a, ha⟩ := h.inUse hs hact
  have hmove : Branch.move f ⟨branch.branchId, a⟩ = branch := by rw [Branch.move, ha]
  exact ⟨_, h.move_mem_starts.mp (by rw [hmove]; exact hb), hmove⟩

/-- The starts of the one table are those of the other, moved. -/
theorem perm_starts (h : MovedBy f t u) : (t.starts.map (Branch.move f)).Perm u.starts := by
  have hnodup : ∀ v : SegmentTable, v.starts.Nodup := fun _ => nodup_starts.of_map _
  refine (List.perm_ext_iff_of_nodup ((hnodup t).map (Branch.move_injective h.inj))
    (hnodup u)).mpr fun branch => ?_
  rw [List.mem_map]
  constructor
  · rintro ⟨branch', hb, rfl⟩
    exact h.move_mem_starts.mpr hb
  · exact h.exists_move

end MovedBy

/-! ## Chains -/

/-- Rows that were moved, in tables with room for the same chains. -/
structure Carried (f : Slot → Slot) (t u : SegmentTable) : Prop extends MovedBy f t u where
  walk : ∀ b ∈ t.starts, (b.move f).walk u = (b.walk t).map f
  path : ∀ b ∈ t.starts, (b.move f).path u = (b.path t).map f

theorem Branch.path_eq (hb : branch ∈ t.starts) :
    branch.path t = Slot.walk t.outletSlot? t.size branch.start :=
  outletChain_of_lt (start_lt hb)

/-- Tables of one size cut their chains off alike. -/
theorem MovedBy.carried_of_size (h : MovedBy f t u) (hsize : u.size = t.size) :
    Carried f t u where
  toMovedBy := h
  walk b _ := by
    rw [Branch.walk, hsize]
    exact Slot.walk_map fun x => h.nextInBranch? b.branchId x
  path b hb := by
    rw [Branch.path_eq hb, Branch.path_eq (h.move_mem_starts.mpr hb), hsize]
    exact Slot.walk_map h.outlet

/-- Chains that end are not cut off. -/
theorem MovedBy.carried_of_forest (h : MovedBy f t u) (ht : t.Forest) (hu : u.Forest) :
    Carried f t u where
  toMovedBy := h
  walk b hb := by
    have hlt := start_lt hb
    have hlt' := start_lt (h.move_mem_starts.mpr hb)
    obtain ⟨k, hroom, hk⟩ := ht.endsIn_inBranch_lt b.branchId hlt
    have hk' := hk.map fun x => h.nextInBranch? b.branchId x
    have hroom' := hk'.lt_size hlt' fun _ _ => hu.sound.nextInBranch?_lt
    rw [Branch.walk, Branch.walk, hk.walk_eq hroom (Nat.lt_succ_self k),
      ← Slot.walk_map fun x => h.nextInBranch? b.branchId x]
    exact hk'.walk_eq hroom' (Nat.lt_succ_self k)
  path b hb := by
    have hb' := h.move_mem_starts.mpr hb
    obtain ⟨k, hroom, hk⟩ := ht.endsIn_lt (start_lt hb)
    have hk' := hk.map h.outlet
    have hroom' := hk'.lt_size (start_lt hb') fun _ _ => hu.sound.outletSlot?_lt
    rw [Branch.path_eq hb, Branch.path_eq hb', hk.walk_eq hroom (Nat.lt_succ_self k),
      ← Slot.walk_map h.outlet]
    exact hk'.walk_eq hroom' (Nat.lt_succ_self k)

namespace Carried

theorem junction? (h : Carried f t u) (hb : branch ∈ t.starts) :
    (branch.move f).junction? u = (branch.junction? t).map f := by
  rw [Branch.junction?, Branch.junction?, h.walk branch hb, List.getLast?_map]
  cases (branch.walk t).getLast? with
  | none => rfl
  | some last =>
      simp only [Option.map_some, Option.bind_eq_bind, Option.bind_some, h.outlet]
      cases t.outletSlot? last with
      | none => rfl
      | some o =>
          have hrow := h.map_row (·.branchId) o
          cases ho : t.get? o with
          | none =>
              rw [ho, Option.map_none, Option.map_eq_none_iff] at hrow
              simp only [Option.map_some, Option.bind_some, ho, hrow, Option.bind_none,
                Option.map_none]
          | some s =>
              rw [ho, Option.map_some, Option.map_eq_some_iff] at hrow
              obtain ⟨s', hs', hid⟩ := hrow
              simp only [Option.map_some, Option.bind_some, ho, hs', hid, Branch.move]
              split <;> rfl

theorem trace_move (h : Carried f t u) (hb : branch ∈ t.starts) :
    (branch.move f).trace u = branch.trace t := by
  rw [Branch.trace, Branch.trace, h.walk branch hb, h.path branch hb, h.junction? hb,
    h.idsAt_map, h.idsAt_map]
  congr 1
  · exact h.map_row (·.id) branch.start
  · rw [Option.bind_map]
    exact congrArg (fun g => (branch.junction? t).bind g) (funext fun a => h.map_row (·.id) a)

/-- Moving the starts moves all members of their chains. -/
theorem perm_members (h : Carried f t u) :
    (u.starts.flatMap fun b => b.walk u).Perm
      ((t.starts.flatMap fun b => b.walk t).map f) := by
  have hmoved : (t.starts.map (Branch.move f)).flatMap (fun b => b.walk u) =
      (t.starts.flatMap fun b => b.walk t).map f := by
    rw [List.flatMap_map, List.map_flatMap]
    exact List.flatMap_congr fun b hb => h.walk b hb
  rw [← hmoved]
  exact (h.perm_starts.flatMap_right fun b => b.walk u).symm

end Carried

end SegmentTable

end Wellbore
