import Wellbore.Branch
import Wellbore.Proofs.Grouping

/-!
# A stable sort collects branches by their numbers

Sorting puts each branch in front of the first one that it need not come after. When the
numbers to sort by are listed once each, that is the front of its own group, so the sort from
the right collects the branches number by number and leaves those of one number as they came.

The index that is made of the sorted list leads from a number to the first branch that has it,
which is what looking the number up in the list finds.
-/

namespace Wellbore

namespace Branch

variable {ids before after : List Int32} {id id' : Int32} {b : Branch} {bs cs : List Branch}

/-- The branches collected number by number. -/
def grouped (ids : List Int32) (bs : List Branch) : List Branch :=
  ids.flatMap fun id => bs.filter fun b => b.branchId == id

/-! ## Where a branch is placed -/

/-- A branch goes past all that it has to come after. -/
theorem place_append (h : ∀ c ∈ cs, b.notAfter ids c = false) (bs : List Branch) :
    place ids b (cs ++ bs) = cs ++ place ids b bs := by
  induction cs with
  | nil => rfl
  | cons c rest ih =>
      obtain ⟨hc, hrest⟩ := List.forall_mem_cons.mp h
      rw [List.cons_append, place, hc, ih hrest]
      rfl

theorem place_of_notAfter (h : ∀ c ∈ bs, b.notAfter ids c = true) :
    place ids b bs = b :: bs := by
  cases bs with
  | nil => rfl
  | cons c rest => rw [place, h c List.mem_cons_self, if_pos rfl]

theorem notAfter_eq {c : Branch} {m n : Nat} (hb : ids.idxOf? b.branchId = some m)
    (hc : ids.idxOf? c.branchId = some n) : b.notAfter ids c = decide (m ≤ n) := by
  rw [notAfter, hb, hc, Bool.eq_iff_iff, decide_eq_true_eq]
  exact Nat.isLE_compare

/-- A number that is listed once has its place right behind those listed before it. -/
theorem idxOf?_middle (hid : id ∉ before) :
    (before ++ id :: after).idxOf? id = some before.length := by
  have hnone : before.findIdx? (· == id) = none := by
    rw [List.findIdx?_eq_none_iff]
    exact fun x hx => beq_eq_false_iff_ne.mpr fun heq => hid (heq ▸ hx)
  rw [List.idxOf?, List.findIdx?_append, hnone, List.findIdx?_cons, beq_self_eq_true]
  simp

theorem idxOf?_before (h : id' ∈ before) :
    ∃ n < before.length, (before ++ id :: after).idxOf? id' = some n := by
  have hsome : (before.findIdx? (· == id')).isSome = true := by
    rw [List.findIdx?_isSome, List.any_eq_true]
    exact ⟨id', h, beq_self_eq_true id'⟩
  obtain ⟨n, hn⟩ := Option.isSome_iff_exists.mp hsome
  refine ⟨n, (List.findIdx?_eq_some_iff_getElem.mp hn).1, ?_⟩
  rw [List.idxOf?, List.findIdx?_append, hn]
  rfl

theorem idxOf?_after (hids : (before ++ id :: after).Nodup) (h : id' ∈ after) :
    ∃ n, before.length ≤ n ∧ (before ++ id :: after).idxOf? id' = some n := by
  obtain ⟨-, -, hapart⟩ := List.nodup_append.mp hids
  have hnone : before.findIdx? (· == id') = none := by
    rw [List.findIdx?_eq_none_iff]
    exact fun x hx => beq_eq_false_iff_ne.mpr (hapart x hx id' (List.mem_cons_of_mem _ h))
  have hsome : ((id :: after).findIdx? (· == id')).isSome = true := by
    rw [List.findIdx?_isSome, List.any_eq_true]
    exact ⟨id', List.mem_cons_of_mem _ h, beq_self_eq_true id'⟩
  obtain ⟨n, hn⟩ := Option.isSome_iff_exists.mp hsome
  refine ⟨n + before.length, Nat.le_add_left _ _, ?_⟩
  rw [List.idxOf?, List.findIdx?_append, hnone, hn]
  rfl

/-- Among branches that are collected already, one more takes the front of its own group. -/
theorem place_grouped (hids : ids.Nodup) (hb : b.branchId ∈ ids) (bs : List Branch) :
    place ids b (grouped ids bs) = grouped ids (b :: bs) := by
  obtain ⟨before, after, rfl⟩ := List.append_of_mem hb
  obtain ⟨-, hafter, hapart⟩ := List.nodup_append.mp hids
  have hnot : b.branchId ∉ before := fun hmem => hapart _ hmem _ List.mem_cons_self rfl
  have hplace : (before ++ b.branchId :: after).idxOf? b.branchId = some before.length :=
    idxOf?_middle hnot
  have hnumber : ∀ {ids' c}, c ∈ grouped ids' bs → c.branchId ∈ ids' := fun hc => by
    obtain ⟨id, hid, hc⟩ := List.mem_flatMap.mp hc
    rwa [beq_iff_eq.mp (List.mem_filter.mp hc).2]
  have hpast : ∀ c ∈ grouped before bs, b.notAfter (before ++ b.branchId :: after) c = false := by
    intro c hc
    obtain ⟨n, hlt, hn⟩ := idxOf?_before (hnumber hc)
    rw [notAfter_eq hplace hn]
    exact decide_eq_false (Nat.not_le_of_gt hlt)
  have hrest : ∀ c ∈ grouped (b.branchId :: after) bs,
      b.notAfter (before ++ b.branchId :: after) c = true := by
    intro c hc
    rcases List.mem_cons.mp (hnumber hc) with hsame | hlater
    · rw [notAfter_eq hplace (by rw [hsame, hplace])]
      exact decide_eq_true (Nat.le_refl _)
    · obtain ⟨n, hle, hn⟩ := idxOf?_after hids hlater
      rw [notAfter_eq hplace hn]
      exact decide_eq_true hle
  have hothers : ∀ ids', b.branchId ∉ ids' → grouped ids' (b :: bs) = grouped ids' bs := by
    intro ids' hids'
    refine List.flatMap_congr fun id hid => ?_
    rw [List.filter_cons_of_neg]
    exact fun heq => hids' (beq_iff_eq.mp heq ▸ hid)
  have hsplit : ∀ cs, grouped (before ++ b.branchId :: after) cs =
      grouped before cs ++ grouped (b.branchId :: after) cs := fun cs => List.flatMap_append
  rw [hsplit, hsplit, place_append hpast, place_of_notAfter hrest, hothers before hnot]
  have hown : (b :: bs).filter (fun c => c.branchId == b.branchId) =
      b :: bs.filter fun c => c.branchId == b.branchId :=
    List.filter_cons_of_pos (beq_self_eq_true _)
  have hcons : ∀ cs, grouped (b.branchId :: after) cs =
      (cs.filter fun c => c.branchId == b.branchId) ++ grouped after cs := fun cs =>
    List.flatMap_cons
  rw [hcons, hcons, hown, hothers after (List.nodup_cons.mp hafter).1, List.cons_append]

/-- Sorting by numbers is collecting by numbers. -/
theorem sortByNumber_eq_grouped (hids : ids.Nodup) (hbs : ∀ b ∈ bs, b.branchId ∈ ids) :
    sortByNumber ids bs = grouped ids bs := by
  induction bs with
  | nil => exact (List.flatMap_eq_nil_iff.mpr fun _ _ => rfl).symm
  | cons b rest ih =>
      obtain ⟨hb, hrest⟩ := List.forall_mem_cons.mp hbs
      rw [sortByNumber, List.foldr_cons, ← sortByNumber, ih hrest, place_grouped hids hb]

end Branch

namespace BranchList

variable {bs : BranchList} {id : Int32}

/-! ## Looking a number up -/

/-- The index leads from a number to the first branch that has it. -/
def Indexed (bs : BranchList) : Prop :=
  ∀ id, bs.index.get? id = bs.branches.findIdx? fun b => b.branchId == id

/-- Of the branches from position `n` on, those come in whose number was not met before. -/
theorem get?_foldl_zipIdx (branches : List Branch) (n : Nat) (index : SortedMap Int32 Nat)
    (id : Int32) :
    ((branches.zipIdx n).foldl (fun (index : SortedMap Int32 Nat) (b, n) =>
      if index.contains b.branchId then index else index.insert b.branchId n) index).get? id =
      (index.get? id).or ((branches.findIdx? fun b => b.branchId == id).map (· + n)) := by
  induction branches generalizing n index with
  | nil => rw [List.zipIdx_nil, List.foldl_nil, List.findIdx?_nil, Option.map_none, Option.or_none]
  | cons b rest ih =>
      rw [List.zipIdx_cons, List.foldl_cons, ih, List.findIdx?_cons]
      dsimp only
      by_cases hid : b.branchId = id
      · subst hid
        rw [beq_self_eq_true, if_pos rfl]
        cases hfound : index.get? b.branchId with
        | some m => rw [SortedMap.contains, hfound, Option.isSome_some, if_pos rfl, hfound]; rfl
        | none =>
            rw [SortedMap.contains, hfound, Option.isSome_none, if_neg Bool.false_ne_true,
              SortedMap.get?_insert_self, Option.some_or, Option.none_or,
              Option.map_some, Nat.zero_add]
      · rw [beq_eq_false_iff_ne.mpr hid, if_neg Bool.false_ne_true, Option.map_map]
        congr 1
        · split
          · rfl
          · exact SortedMap.get?_insert_of_ne (Ne.symm hid)
        · exact congrArg (Option.map · _) (funext fun m => by simp [Nat.add_assoc, Nat.add_comm 1])

theorem indexed_ofBranches (branches : List Branch) : (ofBranches branches).Indexed := by
  intro id
  rw [ofBranches, reindex]
  dsimp only
  rw [get?_foldl_zipIdx, SortedMap.get?_empty, Option.none_or]
  exact congrFun Option.map_id _

theorem branches_ofBranches (branches : List Branch) : (ofBranches branches).branches = branches :=
  rfl

namespace Indexed

theorem find?_eq_head? (h : bs.Indexed) : bs.find? id = (bs.chains id).head? := by
  rw [find?, h, chains, List.head?_filter, List.find?_eq_bind_findIdx?_getElem?]
  rfl

theorem start?_eq_head? (h : bs.Indexed) :
    bs.start? id = (bs.chains id).head?.map Branch.start := by
  rw [start?, h.find?_eq_head?]

theorem has_iff (h : bs.Indexed) : bs.has id = true ↔ bs.chains id ≠ [] := by
  rw [has, SortedMap.contains, h, List.findIdx?_isSome, chains, List.any_eq_true, ne_eq,
    List.filter_eq_nil_iff]
  push Not
  rfl

end Indexed

end BranchList

end Wellbore
