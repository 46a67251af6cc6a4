import Mathlib.Data.List.Induction
import Wellbore.Proofs.Connection.Attachments

/-!
# The attachments through any run of calls

Attachments are kept twice, by grid and by owner, and a call of `attach` may stop
anywhere in its connections. That cannot tear the two apart, as a connection is filed
on both sides or on none; so `Agree` holds after every call, whatever the calls were
given and however they ended.

The grids that are listed are those that something was filed in, since a grid only
comes in with its first attachment (`Filled`).
-/

namespace Wellbore

/-- What one call of `attach` is given. -/
structure AttachCall where
  segments : Option SegmentTable
  connections : List Connection
  catalog : Option GridCatalog

namespace Attachments

variable {as : Attachments} {g grid : GridName} {a : Attachment}
  {segments : Option SegmentTable} {catalog : Option GridCatalog} {cs : List Connection}

/-- The attachments after a call, which may have stopped half way. -/
def after (as : Attachments) (c : AttachCall) : Attachments :=
  (as.attach c.segments c.connections c.catalog).2

/-- The attachments that some calls leave behind, when there were none before. -/
def ofCalls (calls : List AttachCall) : Attachments := calls.foldl after default

theorem ofCalls_append (calls : List AttachCall) (c : AttachCall) :
    ofCalls (calls ++ [c]) = (ofCalls calls).after c := by
  rw [ofCalls, List.foldl_append]
  rfl

/-! ## The grids that are listed -/

/-- No grid is listed before something is filed in it. -/
def Filled (as : Attachments) : Prop := ∀ g list, as.byGrid.get? g = some list → list ≠ []

theorem filled_empty : Filled {} := fun _ _ h => by cases h

theorem Filled.add (h : as.Filled) : (as.add grid a).Filled := by
  intro g list hlist
  unfold Attachments.add at hlist
  by_cases hg : g = grid
  · subst hg
    rw [SortedMap.get?_update_self] at hlist
    cases hlist
    exact List.append_ne_nil_of_right_ne_nil _ (List.cons_ne_nil a [])
  · rw [SortedMap.get?_update_of_ne hg] at hlist
    exact h g list hlist

theorem Filled.addAll {filed : List (GridName × Attachment)} (h : as.Filled) :
    (as.addAll filed).Filled := by
  induction filed generalizing as with
  | nil => exact h
  | cons e rest ih => exact ih h.add

theorem Filled.attach (h : as.Filled) : (as.attach segments cs catalog).2.Filled := by
  obtain ⟨done, rest, filed, -, -, has, -⟩ := attachFrom_cases segments catalog 0 cs as
  unfold Attachments.attach
  rw [has]
  exact h.addAll

theorem Filled.mem_grids (h : as.Filled) : g ∈ as.grids ↔ as.inGrid g ≠ [] := by
  rw [grids, SortedMap.mem_keys, inGrid]
  cases hlist : as.byGrid.get? g with
  | none => simp
  | some list => simpa using h g list hlist

/-- The global grid comes before every other one. -/
theorem head?_grids (h : GridName.global ∈ as.grids) : as.grids.head? = some .global := by
  have hsorted : as.grids.Pairwise fun a b => compare a b = .lt := as.byGrid.pairwise_keys
  cases hgrids : as.grids with
  | nil => rw [hgrids] at h; cases h
  | cons first rest =>
      rw [hgrids] at h hsorted
      rcases List.mem_cons.mp h with rfl | h
      · rfl
      · -- nothing stands before the global grid in the order of names
        have hlt := List.rel_of_pairwise_cons hsorted h
        cases first <;> cases hlt

/-! ## Any run of calls -/

theorem agree_ofCalls (calls : List AttachCall) : (ofCalls calls).Agree := by
  induction calls using List.reverseRecOn with
  | nil => exact agree_empty
  | append_singleton calls c ih =>
      rw [ofCalls_append]
      exact ih.attach

theorem filled_ofCalls (calls : List AttachCall) : (ofCalls calls).Filled := by
  induction calls using List.reverseRecOn with
  | nil => exact filled_empty
  | append_singleton calls c ih =>
      rw [ofCalls_append]
      exact ih.attach

/-- After any run of calls the connections that a segment or the main bore has in a grid
are those that the grid's attachments give to it, in the same order; and the grids are
listed in strict order, the global one first, each with at least one attachment. -/
theorem ofCalls_indexed (calls : List AttachCall) :
    (∀ slot g, (ofCalls calls).ofSegment slot g =
      (((ofCalls calls).inGrid g).filter fun a => a.owner = .segment slot).map (·.connection)) ∧
    (∀ g, (ofCalls calls).ofMainBore g =
      (((ofCalls calls).inGrid g).filter fun a => a.owner = .mainBore).map (·.connection)) ∧
    ((ofCalls calls).grids.Pairwise fun g g' => compare g g' = .lt) ∧
    (.global ∈ (ofCalls calls).grids → (ofCalls calls).grids.head? = some .global) ∧
    ∀ g, g ∈ (ofCalls calls).grids ↔ (ofCalls calls).inGrid g ≠ [] := by
  have hagree := agree_ofCalls calls
  exact ⟨fun slot g => hagree (.segment slot) g, fun g => hagree .mainBore g,
    (ofCalls calls).byGrid.pairwise_keys, head?_grids, fun g => (filled_ofCalls calls).mem_grids⟩

end Attachments

end Wellbore
