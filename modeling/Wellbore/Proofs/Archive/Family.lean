import Wellbore.Case.Summary
import Wellbore.Proofs.Archive.Timeline
import Wellbore.Proofs.Grouping
import Wellbore.Proofs.SortedMap
import Mathlib.Data.List.Forall2

/-!
# An archive is a family of timelines

A snapshot goes to the timeline of its own name, which begins empty if it is not there
yet, and no other timeline is touched. So what a well has after any run of snapshots is
the timeline that its own snapshots would have made alone, in whatever way those of the
others came between them.

Nothing in a run can fail: a timeline stands under the name it has, hence it takes the
snapshot. And a well comes in with its first snapshot, so every well that is listed has a
first and a last one, and the list of wells has a row for each.
-/

namespace Wellbore

namespace Archive

variable {a : Archive} {s : Snapshot} {came : List Snapshot} {name : String}

/-! ## Adding -/

/-- The archive after snapshots have been added to it one after the other. -/
def withSnapshots (a : Archive) (ss : List Snapshot) : Archive :=
  ss.foldl (fun a s => (a.add s).2) a

theorem add_fst (a : Archive) (s : Snapshot) : (a.add s).1 = .ok () := by
  unfold add
  dsimp only
  unfold Timeline.add
  rw [if_neg (not_not_intro (a.name_timelineOf s.name).symm)]

theorem addAll_eq (a : Archive) (ss : List Snapshot) :
    a.addAll ss = (.ok (), a.withSnapshots ss) := by
  induction ss generalizing a with
  | nil => rfl
  | cons s rest ih =>
      have hadd : a.add s = (.ok (), (a.add s).2) := Prod.ext (a.add_fst s) rfl
      unfold addAll
      rw [hadd]
      exact ih _

theorem timeline?_add_self (a : Archive) (s : Snapshot) :
    (a.add s).2.timeline? s.name = some ((a.timelineOf s.name).add s).2 :=
  SortedMap.get?_insert_self

theorem timeline?_add_of_ne (a : Archive) (h : name ≠ s.name) :
    (a.add s).2.timeline? name = a.timeline? name :=
  SortedMap.get?_insert_of_ne h

/-! ## A run of snapshots -/

/-- The archive that snapshots make of an empty one. -/
def ofArrivals (came : List Snapshot) : Archive := (default : Archive).withSnapshots came

theorem ofArrivals_append (came : List Snapshot) (s : Snapshot) :
    ofArrivals (came ++ [s]) = ((ofArrivals came).add s).2 := by
  rw [ofArrivals, withSnapshots, List.foldl_append]
  rfl

theorem ofWell_eq_nil : Timeline.ofWell name came = [] ↔ ∀ s ∈ came, s.name ≠ name := by
  simp [Timeline.ofWell]

theorem ofWell_ofWell (name : String) (came : List Snapshot) :
    Timeline.ofWell name (Timeline.ofWell name came) = Timeline.ofWell name came := by
  rw [Timeline.ofWell, Timeline.ofWell, List.filter_filter]
  simp only [Bool.and_self]

/-- A well has the timeline of its own snapshots, or none if it has no snapshot. -/
theorem timeline?_ofArrivals (came : List Snapshot) (name : String) :
    (ofArrivals came).timeline? name =
      if Timeline.ofWell name came = [] then none
      else some (Timeline.ofArrivals name (Timeline.ofWell name came)) := by
  induction came using List.reverseRecOn with
  | nil => rfl
  | append_singleton came s ih =>
      rw [ofArrivals_append]
      by_cases hs : s.name = name
      · subst hs
        -- a timeline that is not there yet is that of no snapshots
        have hbefore : (ofArrivals came).timelineOf s.name =
            Timeline.ofArrivals s.name (Timeline.ofWell s.name came) := by
          rw [timelineOf, ih]
          split
          next hnone =>
            rw [hnone]
            rfl
          next => rfl
        rw [timeline?_add_self, hbefore, Timeline.ofWell_append_of_eq came rfl,
          if_neg (List.append_ne_nil_of_right_ne_nil _ (List.cons_ne_nil s [])),
          Timeline.ofArrivals_append]
      · rw [timeline?_add_of_ne _ (Ne.symm hs), Timeline.ofWell_append_of_ne came hs]
        exact ih

theorem timeline?_of_came (h : ∃ s ∈ came, s.name = name) : (ofArrivals came).timeline? name =
    some (Timeline.ofArrivals name (Timeline.ofWell name came)) := by
  obtain ⟨s, hs, hname⟩ := h
  rw [timeline?_ofArrivals, if_neg fun hnone => ofWell_eq_nil.mp hnone s hs hname]

theorem timeline?_eq_none : (ofArrivals came).timeline? name = none ↔
    ∀ s ∈ came, s.name ≠ name := by
  rw [timeline?_ofArrivals, ← ofWell_eq_nil]
  split
  next hnone => exact iff_of_true rfl hnone
  next hsome => exact iff_of_false (Option.some_ne_none _) hsome

theorem mem_names : name ∈ (ofArrivals came).names ↔ ∃ s ∈ came, s.name = name := by
  rw [names, SortedMap.mem_keys]
  constructor
  · rintro ⟨tl, htl⟩
    by_contra hno
    have hnone := timeline?_eq_none.mpr fun s hs hname => hno ⟨s, hs, hname⟩
    exact Option.some_ne_none tl (htl.symm.trans hnone)
  · exact fun h => ⟨_, timeline?_of_came h⟩

/-! ## The list of wells -/

/-- The row of a well counts its snapshots and takes its ends from the first and the last
of them in the order of their times. -/
structure RowOf (came : List Snapshot) (name : String) (row : WellSummary) : Prop where
  named : row.name = name
  snapshots : row.snapshots = (Timeline.ofWell name came).length
  ends : ∃ sorted first last, StableSort (Timeline.ofWell name came) sorted ∧
    sorted.head? = some first ∧ sorted.getLast? = some last ∧
    row.firstReport = first.reportStep ∧ row.lastReport = last.reportStep ∧
    row.kind = last.kind ∧ row.isSegmented = last.isSegmented

/-- If every element gives a result, the results stand beside the elements. -/
theorem forall₂_filterMap {α β : Type} {R : α → β → Prop} {f : α → Option β} {xs : List α}
    (h : ∀ x ∈ xs, ∃ y, f x = some y ∧ R x y) : List.Forall₂ R xs (xs.filterMap f) := by
  induction xs with
  | nil => exact .nil
  | cons x rest ih =>
      obtain ⟨y, hy, hR⟩ := h x List.mem_cons_self
      rw [List.filterMap_cons_some hy]
      exact .cons hR (ih fun x hx => h x (List.mem_cons_of_mem _ hx))

theorem summaries_rows (came : List Snapshot) :
    List.Forall₂ (RowOf came) (ofArrivals came).names (ofArrivals came).summaries := by
  refine forall₂_filterMap fun name hname => ?_
  have hcame := mem_names.mp hname
  have hsort := Timeline.ofArrivals_stableSort name (Timeline.ofWell name came)
  rw [ofWell_ofWell] at hsort
  rw [timeline?_of_came hcame]
  generalize Timeline.ofArrivals name (Timeline.ofWell name came) = tl at hsort
  -- a well that is listed has a snapshot, so its timeline has two ends
  have hne : tl.entries.toList ≠ [] := by
    intro hempty
    rw [hempty] at hsort
    obtain ⟨s, hs, hsname⟩ := hcame
    exact ofWell_eq_nil.mp hsort.perm.nil_eq.symm s hs hsname
  obtain ⟨first, hfirst⟩ := Option.isSome_iff_exists.mp (List.isSome_head?.mpr hne)
  obtain ⟨last, hlast⟩ := Option.isSome_iff_exists.mp (List.getLast?_isSome.mpr hne)
  have hfirst' : tl.first? = some first := by
    rw [Timeline.first?, ← Array.getElem?_toList, ← List.head?_eq_getElem?, hfirst]
  have hlast' : tl.last? = some last := by
    rw [Timeline.last?, ← Array.getLast?_toList, hlast]
  refine ⟨_, by rw [Option.bind_eq_bind, Option.bind_some, hfirst', hlast']; rfl, rfl, ?_,
    tl.entries.toList, first, last, hsort, hfirst, hlast, rfl, rfl, rfl, rfl⟩
  exact hsort.perm.length_eq

/-- Every snapshot is counted in one row. -/
theorem sum_snapshots (came : List Snapshot) :
    ((ofArrivals came).summaries.map (·.snapshots)).sum = came.length := by
  have hcounts : (ofArrivals came).summaries.map (·.snapshots) =
      (ofArrivals came).names.map fun name => (Timeline.ofWell name came).length := by
    rw [← List.forall₂_eq_eq_eq, List.forall₂_map_left_iff, List.forall₂_map_right_iff]
    exact (summaries_rows came).flip.imp fun row name h => h.snapshots
  rw [hcounts]
  exact sum_length_filter (SortedMap.nodup_keys _) fun s hs => mem_names.mpr ⟨s, hs, rfl⟩

/-! ## The family -/

/-- An archive is the family of the timelines that the snapshots of each well make alone. -/
structure FamilyOf (a : Archive) (came : List Snapshot) : Prop where
  sorted : a.names.Pairwise fun name name' => compare name name' = .lt
  names : ∀ name, name ∈ a.names ↔ ∃ s ∈ came, s.name = name
  absent : ∀ name, a.timeline? name = none ↔ ∀ s ∈ came, s.name ≠ name
  own : ∀ name, (∃ s ∈ came, s.name = name) →
    a.timeline? name = some (Timeline.ofArrivals name (Timeline.ofWell name came))
  apart : ∀ s name, name ≠ s.name → (a.add s).2.timeline? name = a.timeline? name
  unknown : ∀ name key, a.snapshotAt name key = .error (.unknownWell name) ↔
    ∀ s ∈ came, s.name ≠ name
  found : ∀ name key, (∃ s ∈ came, s.name = name) → a.snapshotAt name key =
    .ok ((Timeline.ofArrivals name (Timeline.ofWell name came)).lookup? key)
  rows : List.Forall₂ (RowOf came) a.names a.summaries
  counted : (a.summaries.map (·.snapshots)).sum = came.length

/-- No snapshot of a run is refused, and after it the archive is a family of independent
timelines, one for each name that came. -/
theorem ofArrivals_family (came : List Snapshot) :
    (default : Archive).addAll came = (.ok (), ofArrivals came) ∧
      (∀ s, ((ofArrivals came).add s).1 = .ok ()) ∧ (ofArrivals came).FamilyOf came := by
  refine ⟨addAll_eq _ came, add_fst _, ?_⟩
  constructor
  case sorted => exact (ofArrivals came).wells.pairwise_keys
  case names => exact fun name => mem_names
  case absent => exact fun name => timeline?_eq_none
  case own => exact fun name => timeline?_of_came
  case apart => exact fun s name hne => timeline?_add_of_ne _ hne
  case unknown =>
    intro name key
    rw [← timeline?_eq_none, snapshotAt]
    cases (ofArrivals came).timeline? name with
    | none => exact iff_of_true rfl rfl
    | some tl => exact iff_of_false (by simp) (Option.some_ne_none tl)
  case found =>
    intro name key hcame
    rw [snapshotAt, timeline?_of_came hcame]
  case rows => exact summaries_rows came
  case counted => exact sum_snapshots came

end Archive

end Wellbore
