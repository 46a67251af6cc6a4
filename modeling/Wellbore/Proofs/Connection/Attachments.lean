import Mathlib.Data.List.Forall2
import Wellbore.Connection.Attachments
import Wellbore.Proofs.SortedMap
import Wellbore.Proofs.Segment.Table

/-!
# What attaching leaves behind

A run of `attach` files the connections that come before the first one it cannot
resolve, each under its grid and in order, and files nothing else. The numbers
kept by owner are never looked at while attaching; they agree with the lists kept
by grid because every filing writes both. A run that ends well has appended one
attachment for each connection, to the list of its grid and to the numbers of its
owner.
-/

namespace Wellbore

variable {α κ : Type} [DecidableEq κ] [BEq κ] [LawfulBEq κ]

/-! ## Appending at a key -/

theorem lookup_appendAt_self (k : κ) (a : α) (lists : List (κ × List α)) :
    (appendAt k a lists).lookup k = some ((lists.lookup k).getD [] ++ [a]) := by
  induction lists with
  | nil => simp [appendAt]
  | cons hd rest ih =>
      obtain ⟨k', as⟩ := hd
      unfold appendAt
      split
      next h => simp [h]
      next h =>
        have hne : (k == k') = false := beq_false_of_ne (Ne.symm h)
        simp [List.lookup_cons, hne, ih]

theorem lookup_appendAt_of_ne {k k' : κ} (h : k' ≠ k) (a : α) (lists : List (κ × List α)) :
    (appendAt k a lists).lookup k' = lists.lookup k' := by
  have hne : (k' == k) = false := beq_false_of_ne h
  induction lists with
  | nil => simp [appendAt, List.lookup_cons, hne]
  | cons hd rest ih =>
      obtain ⟨k'', as⟩ := hd
      unfold appendAt
      split
      next heq =>
        subst heq
        simp [List.lookup_cons, hne]
      next => rw [List.lookup_cons, List.lookup_cons, ih]

namespace Attachments

variable {as as' : Attachments} {g grid : GridName} {a : Attachment} {owner : Owner}
  {segments : Option SegmentTable} {catalog : Option GridCatalog} {number n : Nat}
  {c : Connection} {cs : List Connection} {r : Except TopologyError Unit}

/-! ## Filing one connection -/

theorem inGrid_add_self : (as.add grid a).inGrid grid = as.inGrid grid ++ [a] := by
  unfold inGrid add
  rw [SortedMap.get?_update_self]
  rfl

theorem inGrid_add_of_ne (h : g ≠ grid) : (as.add grid a).inGrid g = as.inGrid g := by
  unfold inGrid add
  rw [SortedMap.get?_update_of_ne h]

theorem ownedBy_add_self :
    (as.add grid a).ownedBy a.owner grid = as.ownedBy a.owner grid ++ [a.connection] := by
  unfold ownedBy add
  rw [lookup_appendAt_self]
  rfl

theorem ownedBy_add_of_ne (h : (owner, g) ≠ (a.owner, grid)) :
    (as.add grid a).ownedBy owner g = as.ownedBy owner g := by
  unfold ownedBy add
  rw [lookup_appendAt_of_ne h]

/-! ## The two sides -/

/-- The numbers kept by owner are those of the lists kept by grid, in order. -/
def Agree (as : Attachments) : Prop :=
  ∀ owner g, as.ownedBy owner g =
    ((as.inGrid g).filter fun a => a.owner = owner).map (·.connection)

theorem agree_empty : Agree {} := fun _ _ => rfl

theorem Agree.add (h : as.Agree) : (as.add grid a).Agree := by
  intro owner g
  by_cases hg : g = grid
  · subst hg
    rw [inGrid_add_self, List.filter_append, List.map_append, ← h owner g]
    by_cases ho : owner = a.owner
    · subst ho
      rw [ownedBy_add_self]
      simp
    · rw [ownedBy_add_of_ne (by simp [ho])]
      simp [Ne.symm ho]
  · rw [inGrid_add_of_ne hg, ownedBy_add_of_ne (by simp [hg])]
    exact h owner g

/-! ## Filing several -/

/-- Files attachments, each in its grid. -/
def addAll (as : Attachments) (filed : List (GridName × Attachment)) : Attachments :=
  filed.foldl (fun as e => as.add e.1 e.2) as

theorem Agree.addAll {filed : List (GridName × Attachment)} (h : as.Agree) :
    (as.addAll filed).Agree := by
  induction filed generalizing as with
  | nil => exact h
  | cons e rest ih => exact ih h.add

theorem inGrid_addAll (filed : List (GridName × Attachment)) :
    (as.addAll filed).inGrid g =
      as.inGrid g ++ (filed.filter fun e => e.1 = g).map (·.2) := by
  induction filed generalizing as with
  | nil => simp [addAll]
  | cons e rest ih =>
      have hstep : as.addAll (e :: rest) = (as.add e.1 e.2).addAll rest := rfl
      rw [hstep, ih]
      by_cases hg : e.1 = g
      · subst hg
        simp [inGrid_add_self]
      · rw [inGrid_add_of_ne (Ne.symm hg)]
        simp [hg]

theorem ownedBy_addAll (filed : List (GridName × Attachment)) (owner : Owner) :
    (as.addAll filed).ownedBy owner g = as.ownedBy owner g ++
      (((filed.filter fun e => e.1 = g).map (·.2)).filter fun a => a.owner = owner).map
        (·.connection) := by
  induction filed generalizing as with
  | nil => simp [addAll]
  | cons e rest ih =>
      have hstep : as.addAll (e :: rest) = (as.add e.1 e.2).addAll rest := rfl
      rw [hstep, ih]
      by_cases hg : e.1 = g
      · by_cases ho : e.2.owner = owner
        · rw [← hg, ← ho, ownedBy_add_self]
          simp
        · rw [ownedBy_add_of_ne (by simp [Ne.symm ho])]
          simp [hg, ho]
      · rw [ownedBy_add_of_ne (by simp [Ne.symm hg])]
        simp [hg]

/-! ## Resolving -/

/-- `e` files the connection `c`, which has the number `n`. -/
def Files (segments : Option SegmentTable) (catalog : Option GridCatalog)
    (c : Connection × Nat) (e : GridName × Attachment) : Prop :=
  e.1 = c.1.grid ∧ resolve segments catalog c.2 c.1 = .ok e.2

theorem exists_mem_of_forall₂ {α β : Type} {R : α → β → Prop} {as : List α} {bs : List β}
    (h : List.Forall₂ R as bs) {b : β} (hb : b ∈ bs) : ∃ a ∈ as, R a b := by
  obtain ⟨i, hi, rfl⟩ := List.getElem_of_mem hb
  have hi' : i < as.length := h.length_eq ▸ hi
  exact ⟨as[i], List.getElem_mem hi', h.get hi' hi⟩

theorem resolve_eq_ok : resolve segments catalog n c = .ok a ↔
    a.connection = n ∧ ownerOf segments n c = .ok a.owner ∧
      cellOf catalog c = .ok (a.cellIndex, a.activeIndex) := by
  unfold resolve
  constructor
  · intro h
    cases howner : ownerOf segments n c with
    | error e => simp [howner, bind, Except.bind] at h
    | ok owner =>
        cases hcell : cellOf catalog c with
        | error e => simp [howner, hcell, bind, Except.bind] at h
        | ok cell =>
            simp [howner, hcell, bind, Except.bind, pure, Except.pure] at h
            subst h
            exact ⟨rfl, rfl, rfl⟩
  · rintro ⟨rfl, howner, hcell⟩
    rw [howner, hcell]
    rfl

theorem ownerOf_table_eq_ok {t : SegmentTable} : ownerOf (some t) n c = .ok owner ↔
    ∃ slot, t.slotOf? (c.segmentId.getD 0) = some slot ∧ owner = .segment slot := by
  unfold ownerOf
  cases hslot : t.slotOf? (c.segmentId.getD 0) with
  | none => simp [hslot]
  | some slot => simp [hslot, eq_comm]

theorem cellOf_catalog_eq_ok {grids : GridCatalog} {index active : Option Nat} :
    cellOf (some grids) c = .ok (index, active) ↔
      ∃ cell, grids.indexOf c.grid c.cell = .ok cell ∧ index = some cell ∧
        active = grids.activeNumber? c.grid cell := by
  unfold cellOf
  cases hcell : grids.indexOf c.grid c.cell with
  | error e => simp [hcell]
  | ok cell => simp [hcell, eq_comm]

theorem isSome_of_cellOf {index active : Option Nat} (h : cellOf catalog c = .ok (index, active)) :
    index.isSome = catalog.isSome := by
  cases catalog with
  | none =>
      cases h
      rfl
  | some grids =>
      obtain ⟨cell, -, rfl, -⟩ := cellOf_catalog_eq_ok.mp h
      rfl

/-- Attaching files what comes before the first connection that does not resolve; it
ends well if there is none. -/
theorem attachFrom_cases (segments : Option SegmentTable) (catalog : Option GridCatalog)
    (number : Nat) (cs : List Connection) (as : Attachments) :
    ∃ done rest filed, cs = done ++ rest ∧
      List.Forall₂ (Files segments catalog) (done.zipIdx number) filed ∧
      (attachFrom segments catalog number cs as).2 = as.addAll filed ∧
      ((rest = [] ∧ (attachFrom segments catalog number cs as).1 = .ok ()) ∨
        ∃ c rest' e, rest = c :: rest' ∧
          resolve segments catalog (number + done.length) c = .error e ∧
          (attachFrom segments catalog number cs as).1 = .error e) := by
  induction cs generalizing number as with
  | nil => exact ⟨[], [], [], rfl, .nil, rfl, .inl ⟨rfl, rfl⟩⟩
  | cons c cs ih =>
      unfold attachFrom
      cases hc : resolve segments catalog number c with
      | error e => exact ⟨[], c :: cs, [], rfl, .nil, rfl, .inr ⟨c, cs, e, rfl, hc, rfl⟩⟩
      | ok a =>
          obtain ⟨done, rest, filed, hcs, hfiled, has, hend⟩ :=
            ih (number + 1) (as.add c.grid a)
          refine ⟨c :: done, rest, (c.grid, a) :: filed, by rw [hcs]; rfl, ?_, has, ?_⟩
          · rw [List.zipIdx_cons]
            exact .cons ⟨rfl, hc⟩ hfiled
          · rcases hend with hok | ⟨c', rest', e, hrest, he, herr⟩
            · exact .inl hok
            · refine .inr ⟨c', rest', e, hrest, ?_, herr⟩
              rw [List.length_cons, Nat.add_comm done.length, ← Nat.add_assoc]
              exact he

theorem Agree.attach (h : as.Agree) :
    (as.attach segments cs catalog).2.Agree := by
  obtain ⟨done, rest, filed, -, -, has, -⟩ := attachFrom_cases segments catalog 0 cs as
  unfold Attachments.attach
  rw [has]
  exact h.addAll

/-- Attaching that ends well has filed every connection. -/
theorem attach_eq_ok (h : as.attach segments cs catalog = (.ok (), as')) :
    ∃ filed, List.Forall₂ (Files segments catalog) cs.zipIdx filed ∧ as' = as.addAll filed := by
  unfold attach at h
  obtain ⟨done, rest, filed, hcs, hfiled, has, ⟨hrest, -⟩ | ⟨_, _, e, -, -, herr⟩⟩ :=
    attachFrom_cases segments catalog 0 cs as
  · rw [hrest, List.append_nil] at hcs
    subst hcs
    rw [h] at has
    exact ⟨filed, hfiled, has⟩
  · rw [h] at herr
    cases herr

/-- `as'` is `as` with one attachment for each connection, behind those of its grid and behind
the numbers of its owner there, in order. -/
def Appends (segments : Option SegmentTable) (catalog : Option GridCatalog)
    (cs : List Connection) (as as' : Attachments) : Prop :=
  ∀ g, ∃ fresh, as'.inGrid g = as.inGrid g ++ fresh ∧
    List.Forall₂ (fun c a => a.connection = c.2 ∧ resolve segments catalog c.2 c.1 = .ok a)
      (cs.zipIdx.filter fun c => c.1.grid = g) fresh ∧
    ∀ owner, as'.ownedBy owner g =
      as.ownedBy owner g ++ (fresh.filter fun a => a.owner = owner).map (·.connection)

theorem appends_of_attach (h : as.attach segments cs catalog = (.ok (), as')) :
    Appends segments catalog cs as as' := by
  obtain ⟨filed, hfiled, rfl⟩ := attach_eq_ok h
  intro g
  have hfilter : List.Forall₂ (Files segments catalog)
      (cs.zipIdx.filter fun c => c.1.grid = g) (filed.filter fun e => e.1 = g) :=
    List.rel_filter (fun _ _ he => by simp only [he.1]) hfiled
  refine ⟨_, inGrid_addAll filed, ?_, ownedBy_addAll filed⟩
  rw [List.forall₂_map_right_iff]
  exact hfilter.imp fun _ _ he => ⟨(resolve_eq_ok.mp he.2).1, he.2⟩

end Attachments

end Wellbore
