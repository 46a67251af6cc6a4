import Wellbore.Archive.Timeline
import Mathlib.Data.List.Induction

/-!
# A timeline is the stable sort of what came

A snapshot that does not lie before the last entry is put behind it, and for any other
the entries are sorted again. Both ways lead to the same order, but only because the
entries were in order before: then a snapshot that is not before the last entry is not
before any of them. `StableSort` is the invariant that carries this from one call to
the next, and refused snapshots leave no trace in it.
-/

namespace Wellbore

variable {came sorted entries : List Snapshot} {s : Snapshot} {tl : Timeline} {name : String}

/-- The snapshots that came, in the order of their times, and those of one time in the
order in which they came. -/
structure StableSort (came sorted : List Snapshot) : Prop where
  perm : sorted.Perm came
  ordered : sorted.Pairwise fun a b => a.simTime.notAfter b.simTime = true
  stable : ∀ t, sorted.filter (fun s => s.simTime = t) = came.filter fun s => s.simTime = t

/-! ## There is one stable sort -/

section
variable {xs ys : List Snapshot} {u : Snapshot}

theorem mem_of_sameTimes (h : ∀ t, xs.filter (fun s => s.simTime = t) =
    ys.filter fun s => s.simTime = t) (hu : u ∈ xs) : u ∈ ys := by
  have hfilter : u ∈ xs.filter fun s => s.simTime = u.simTime :=
    List.mem_filter.mpr ⟨hu, decide_eq_true rfl⟩
  rw [h] at hfilter
  exact (List.mem_filter.mp hfilter).1

theorem head_notAfter {x : Snapshot}
    (h : (x :: xs).Pairwise fun a b => a.simTime.notAfter b.simTime = true) (hu : u ∈ x :: xs) :
    x.simTime.notAfter u.simTime = true := by
  rcases List.mem_cons.mp hu with rfl | hu
  · exact Instant.notAfter_refl _
  · exact List.rel_of_pairwise_cons h hu

/-- Lists in the order of their times are the same if they are the same at every time. -/
theorem eq_of_sameTimes (hxs : xs.Pairwise fun a b => a.simTime.notAfter b.simTime = true)
    (hys : ys.Pairwise fun a b => a.simTime.notAfter b.simTime = true)
    (h : ∀ t, xs.filter (fun s => s.simTime = t) = ys.filter fun s => s.simTime = t) :
    xs = ys := by
  induction xs generalizing ys with
  | nil =>
      refine (List.eq_nil_iff_forall_not_mem.mpr fun u hu => ?_).symm
      cases mem_of_sameTimes (fun t => (h t).symm) hu
  | cons x xs ih =>
      cases ys with
      | nil => cases mem_of_sameTimes h List.mem_cons_self
      | cons y ys =>
          -- Each head stands in the other list too, so neither is the later one.
          have hx := mem_of_sameTimes h List.mem_cons_self
          have hy := mem_of_sameTimes (fun t => (h t).symm) List.mem_cons_self
          have htime : x.simTime = y.simTime :=
            Instant.notAfter_antisymm (head_notAfter hxs hy) (head_notAfter hys hx)
          have hhead := h y.simTime
          simp only [List.filter_cons, htime, decide_true, if_true] at hhead
          obtain ⟨rfl, -⟩ := List.cons.inj hhead
          refine congrArg (x :: ·) (ih hxs.of_cons hys.of_cons fun t => ?_)
          have ht := h t
          rw [List.filter_cons, List.filter_cons] at ht
          split at ht
          next => exact (List.cons.inj ht).2
          next => exact ht

end

namespace StableSort

theorem unique {sorted' : List Snapshot} (h : StableSort came sorted)
    (h' : StableSort came sorted') : sorted = sorted' :=
  eq_of_sameTimes h.ordered h'.ordered fun t => (h.stable t).trans (h'.stable t).symm

/-! ## Keeping it -/

theorem nil : StableSort [] [] := ⟨.nil, .nil, fun _ => rfl⟩

/-- No entry lies after the last one. -/
theorem notAfter_last (h : StableSort came sorted) {last : Snapshot}
    (hlast : sorted.getLast? = some last) {u : Snapshot} (hu : u ∈ sorted) :
    u.simTime.notAfter last.simTime = true := by
  obtain ⟨before, rfl⟩ := List.getLast?_eq_some_iff.mp hlast
  rcases List.mem_append.mp hu with hu | hu
  · exact (List.pairwise_append.mp h.ordered).2.2 u hu last List.mem_cons_self
  · rw [List.mem_singleton.mp hu]
    exact Instant.notAfter_refl _

theorem append (h : StableSort came sorted)
    (hs : ∀ u ∈ sorted, u.simTime.notAfter s.simTime = true) :
    StableSort (came ++ [s]) (sorted ++ [s]) := by
  refine ⟨h.perm.append_right [s], ?_, fun t => ?_⟩
  · rw [List.pairwise_append]
    refine ⟨h.ordered, List.pairwise_singleton _ _, ?_⟩
    intro u hu v hv
    rw [List.mem_singleton.mp hv]
    exact hs u hu
  · rw [List.filter_append, List.filter_append, h.stable t]

/-- Merge sort keeps equal times as they are, as it cannot break up a stretch that is
in order. -/
theorem sortByTime (entries : Array Snapshot) :
    StableSort entries.toList (Timeline.sortByTime entries).toList := by
  have htrans := fun a b c : Snapshot => Instant.notAfter_trans a.simTime b.simTime c.simTime
  have htotal := fun a b : Snapshot => Instant.notAfter_total a.simTime b.simTime
  have hperm : (Timeline.sortByTime entries).toList.Perm entries.toList :=
    List.mergeSort_perm _ _
  refine ⟨hperm, List.pairwise_mergeSort htrans htotal _, fun t => ?_⟩
  have heq : (entries.toList.filter fun s => s.simTime = t).Pairwise
      fun a b => a.simTime.notAfter b.simTime = true := by
    refine List.pairwise_of_forall_mem_list ?_
    intro a ha b hb
    have hta := of_decide_eq_true (List.mem_filter.mp ha).2
    have htb := of_decide_eq_true (List.mem_filter.mp hb).2
    rw [hta, htb]
    exact Instant.notAfter_refl t
  have hsub := (List.sublist_mergeSort htrans htotal heq List.filter_sublist).filter
    fun s => s.simTime = t
  rw [List.filter_filter] at hsub
  simp only [Bool.and_self] at hsub
  refine (hsub.eq_of_length ?_).symm
  exact (hperm.symm.filter _).length_eq

/-- What came matters only up to the order of different times. -/
theorem of_arranged (h : StableSort entries sorted) (hperm : entries.Perm came)
    (harranged : ∀ t, entries.filter (fun s => s.simTime = t) =
      came.filter fun s => s.simTime = t) : StableSort came sorted :=
  ⟨h.perm.trans hperm, h.ordered, fun t => (h.stable t).trans (harranged t)⟩

end StableSort

namespace Timeline

theorem add_of_ne (h : s.name ≠ tl.name) :
    tl.add s = (.error (.wellNameMismatch tl.name s.name), tl) := by
  unfold add
  rw [if_pos h]

theorem add_of_eq (h : s.name = tl.name) : ∃ entries,
    tl.add s = (.ok (), { tl with entries }) ∧
      entries = if tl.outOfOrder s then sortByTime (tl.entries.push s) else tl.entries.push s := by
  unfold add
  rw [if_neg (not_not_intro h)]
  exact ⟨_, rfl, rfl⟩

theorem add_stableSort (h : StableSort came tl.entries.toList) (hs : s.name = tl.name) :
    StableSort (came ++ [s]) (tl.add s).2.entries.toList := by
  obtain ⟨entries, hadd, hentries⟩ := add_of_eq hs
  rw [hadd, hentries]
  dsimp only
  split
  next =>
    have hsort := StableSort.sortByTime (tl.entries.push s)
    rw [Array.toList_push] at hsort
    refine hsort.of_arranged (h.perm.append_right [s]) fun t => ?_
    rw [List.filter_append, List.filter_append, h.stable t]
  next hin =>
    -- The last entry is the latest, so what does not lie before it lies before none.
    rw [Array.toList_push]
    refine h.append fun u hu => ?_
    cases hlast : tl.entries.toList.getLast? with
    | none =>
        rw [List.getLast?_eq_none_iff.mp hlast] at hu
        cases hu
    | some last =>
        have hle := h.notAfter_last hlast hu
        rw [Array.getLast?_toList] at hlast
        rw [outOfOrder, hlast, Option.any_some, Bool.not_eq_true, ← Bool.not_eq_true',
          ← Instant.notAfter] at hin
        exact Instant.notAfter_trans _ _ _ hle hin

/-! ## A run of calls -/

/-- The timeline of a well after some snapshots were offered to an empty one. -/
def ofArrivals (name : String) (arrivals : List Snapshot) : Timeline :=
  arrivals.foldl (fun tl s => (tl.add s).2) { name }

theorem ofArrivals_append (name : String) (arrivals : List Snapshot) (s : Snapshot) :
    ofArrivals name (arrivals ++ [s]) = ((ofArrivals name arrivals).add s).2 := by
  unfold ofArrivals
  rw [List.foldl_append]
  rfl

theorem name_ofArrivals (name : String) (arrivals : List Snapshot) :
    (ofArrivals name arrivals).name = name := by
  induction arrivals using List.reverseRecOn with
  | nil => rfl
  | append_singleton arrivals s ih => rw [ofArrivals_append, name_add, ih]

/-- The snapshots of a well among those that were offered. -/
def ofWell (name : String) (arrivals : List Snapshot) : List Snapshot :=
  arrivals.filter fun s => s.name = name

theorem ofWell_append_of_eq (arrivals : List Snapshot) (hs : s.name = name) :
    ofWell name (arrivals ++ [s]) = ofWell name arrivals ++ [s] := by
  simp [ofWell, hs]

theorem ofWell_append_of_ne (arrivals : List Snapshot) (hs : s.name ≠ name) :
    ofWell name (arrivals ++ [s]) = ofWell name arrivals := by
  simp [ofWell, hs]

theorem ofArrivals_stableSort (name : String) (arrivals : List Snapshot) :
    StableSort (ofWell name arrivals) (ofArrivals name arrivals).entries.toList := by
  induction arrivals using List.reverseRecOn with
  | nil => exact .nil
  | append_singleton arrivals s ih =>
      have hname := name_ofArrivals name arrivals
      rw [ofArrivals_append]
      by_cases hs : s.name = name
      · rw [ofWell_append_of_eq arrivals hs]
        exact add_stableSort ih (hs.trans hname.symm)
      · rw [ofWell_append_of_ne arrivals hs, add_of_ne (by rw [hname]; exact hs)]
        exact ih

/-- After every call the entries are the stable sort of the well's own snapshots, and a
call is refused, without effect, exactly for a snapshot of another well. -/
theorem add_keeps_stableSort (name : String) (arrivals : List Snapshot) :
    StableSort (ofWell name arrivals) (ofArrivals name arrivals).entries.toList ∧
      ∀ s, (ofArrivals name arrivals).add s =
        if s.name = name then (.ok (), ofArrivals name (arrivals ++ [s]))
        else (.error (.wellNameMismatch name s.name), ofArrivals name arrivals) := by
  refine ⟨ofArrivals_stableSort name arrivals, fun s => ?_⟩
  have hname := name_ofArrivals name arrivals
  split
  next hs =>
    obtain ⟨entries, hadd, -⟩ := add_of_eq (hs.trans hname.symm)
    rw [ofArrivals_append, hadd]
  next hs =>
    rw [add_of_ne (by rw [hname]; exact hs), hname]

end Timeline

end Wellbore
