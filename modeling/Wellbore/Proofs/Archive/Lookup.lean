import Wellbore.Proofs.Archive.Bisection
import Wellbore.Proofs.Archive.Timeline

/-!
# Look-ups are exact

Bisection finds the last entry that passes a test as long as the test divides the
entries. Being at or before a time divides them, because they are in order after any
run of calls; being at or before a report step divides them only as far as steps grow
with time, which nothing enforces.

Of several entries with the time that is found the last one is taken, and since the sort
is stable, that is the one that came last.
-/

namespace Wellbore

namespace Timeline

open Bisection (Divides)

variable {tl : Timeline} {test : Snapshot → Bool} {s : Snapshot} {t : Instant} {step : Int32}
  {came : List Snapshot}

theorem lastPassing?_eq (h : Divides test tl.entries.toList) :
    tl.lastPassing? test = (tl.entries.toList.filter test).getLast? := by
  have hpoint := Bisection.partitionPoint_eq h
  unfold lastPassing?
  split
  next hzero =>
    rw [hzero] at hpoint
    rw [List.eq_nil_of_length_eq_zero hpoint.symm]
    rfl
  next n hn =>
    rw [hn] at hpoint
    have hlt : n < (tl.entries.toList.filter test).length := by omega
    have hget : tl.entries.toList[n]? = (tl.entries.toList.filter test)[n]? := by
      conv_lhs => rw [← h.filter_append]
      exact List.getElem?_append_left hlt
    rw [← Array.getElem?_toList, hget, List.getLast?_eq_getElem?, ← hpoint, Nat.succ_sub_one]

theorem lastPassing?_eq_none (h : Divides test tl.entries.toList) :
    tl.lastPassing? test = none ↔ ∀ s ∈ tl.entries, test s = false := by
  rw [lastPassing?_eq h, List.getLast?_eq_none_iff, List.filter_eq_nil_iff]
  simp only [Array.mem_toList_iff, Bool.not_eq_true]

/-- What is found passes, and nothing behind it does. -/
theorem lastPassing?_eq_some (h : Divides test tl.entries.toList) :
    tl.lastPassing? test = some s ↔ ∃ before after, tl.entries.toList = before ++ s :: after ∧
      test s = true ∧ ∀ u ∈ after, test u = false := by
  rw [lastPassing?_eq h, List.getLast?_eq_head?_reverse, ← List.filter_reverse,
    List.head?_filter, List.find?_eq_some_iff_append]
  constructor
  · rintro ⟨hs, after, before, heq, hafter⟩
    refine ⟨before.reverse, after.reverse, ?_, hs, fun u hu => ?_⟩
    · rw [← List.reverse_inj, heq]
      simp
    · have hu' := hafter u (List.mem_reverse.mp hu)
      rwa [Bool.not_eq_true'] at hu'
  · rintro ⟨before, after, heq, hs, hafter⟩
    refine ⟨hs, after.reverse, before.reverse, by simp [heq], fun u hu => ?_⟩
    rw [Bool.not_eq_true']
    exact hafter u (List.mem_reverse.mp hu)

/-! ## By time -/

/-- Of the snapshots with the greatest time that is not after `t`, the one that came
last. -/
structure LatestAt (came : List Snapshot) (t : Instant) (s : Snapshot) : Prop where
  notAfter : s.simTime.notAfter t = true
  greatest : ∀ u ∈ came, u.simTime.notAfter t = true → u.simTime.notAfter s.simTime = true
  last : (came.filter fun u => u.simTime = s.simTime).getLast? = some s

theorem LatestAt.mem (h : LatestAt came t s) : s ∈ came :=
  (List.mem_filter.mp (List.mem_of_getLast? h.last)).1

theorem LatestAt.unique {s' : Snapshot} (h : LatestAt came t s) (h' : LatestAt came t s') :
    s = s' := by
  have htime : s.simTime = s'.simTime := Instant.notAfter_antisymm
    (h'.greatest s h.mem h.notAfter) (h.greatest s' h'.mem h'.notAfter)
  have hlast := h.last
  rw [htime, h'.last] at hlast
  exact (Option.some.inj hlast).symm

theorem divides_notAfter (h : StableSort came tl.entries.toList) :
    Divides (fun s => s.simTime.notAfter t) tl.entries.toList :=
  h.ordered.imp fun hab hb => Instant.notAfter_trans _ _ _ hab hb

theorem latestAt_of_atTime? (h : StableSort came tl.entries.toList)
    (hs : tl.atTime? t = some s) : LatestAt came t s := by
  obtain ⟨before, after, heq, hpass, hafter⟩ :=
    (lastPassing?_eq_some (divides_notAfter h)).mp hs
  have hordered := h.ordered
  rw [heq, List.pairwise_append] at hordered
  refine ⟨hpass, fun u hu hut => ?_, ?_⟩
  · have hmem := h.perm.mem_iff.mpr hu
    rw [heq, List.mem_append, List.mem_cons] at hmem
    rcases hmem with hbefore | rfl | hbehind
    · exact hordered.2.2 u hbefore s List.mem_cons_self
    · exact Instant.notAfter_refl _
    · rw [hafter u hbehind] at hut
      cases hut
  · -- Behind `s` no entry has its time, since that time passes the test.
    have hnone : (after.filter fun u => u.simTime = s.simTime) = [] := by
      rw [List.filter_eq_nil_iff]
      intro u hu htime
      have hfail := hafter u hu
      rw [of_decide_eq_true htime, hpass] at hfail
      cases hfail
    rw [← h.stable, heq, List.filter_append, List.filter_cons_of_pos (by simp), hnone,
      List.getLast?_append]
    rfl

theorem atTime?_eq_none (h : StableSort came tl.entries.toList) :
    tl.atTime? t = none ↔ ∀ s ∈ tl.entries, t.before s.simTime = true := by
  unfold atTime?
  rw [lastPassing?_eq_none (divides_notAfter h)]
  simp only [Instant.notAfter_eq_false]

theorem atTime?_eq_some (h : StableSort came tl.entries.toList) :
    tl.atTime? t = some s ↔ LatestAt came t s := by
  refine ⟨latestAt_of_atTime? h, fun hlatest => ?_⟩
  cases hfound : tl.atTime? t with
  | none =>
      have hmem := Array.mem_toList_iff.mp (h.perm.mem_iff.mpr hlatest.mem)
      have hbefore := (atTime?_eq_none h).mp hfound s hmem
      rw [← Instant.notAfter_eq_false, hlatest.notAfter] at hbefore
      cases hbefore
  | some s' => rw [(latestAt_of_atTime? h hfound).unique hlatest]

/-! ## By report step -/

/-- Report steps never decrease along the entries. -/
def StepsGrow (tl : Timeline) : Prop :=
  tl.entries.toList.Pairwise fun a b => a.reportStep ≤ b.reportStep

instance : Decidable tl.StepsGrow := inferInstanceAs (Decidable (List.Pairwise _ _))

theorem StepsGrow.divides (h : tl.StepsGrow) :
    Divides (fun s => s.reportStep ≤ step) tl.entries.toList := by
  refine h.imp fun hab hb => ?_
  rw [decide_eq_true_eq] at hb ⊢
  exact Int32.le_trans hab hb

theorem atReport?_eq_none (h : tl.StepsGrow) :
    tl.atReport? step = none ↔ ∀ s ∈ tl.entries, step < s.reportStep := by
  unfold atReport?
  rw [lastPassing?_eq_none h.divides]
  simp only [decide_eq_false_iff_not, Int32.not_le]

theorem atReport?_eq_some (h : tl.StepsGrow) :
    tl.atReport? step = some s ↔ ∃ before after, tl.entries.toList = before ++ s :: after ∧
      s.reportStep ≤ step ∧ ∀ u ∈ after, step < u.reportStep := by
  unfold atReport?
  rw [lastPassing?_eq_some h.divides]
  simp only [decide_eq_true_eq, decide_eq_false_iff_not, Int32.not_le]

/-! ## Every look-up -/

/-- What the look-ups of a timeline answer, `came` being the snapshots in it as they came. -/
structure Answers (tl : Timeline) (came : List Snapshot) : Prop where
  noTime : ∀ t, tl.atTime? t = none ↔ ∀ s ∈ tl.entries, t.before s.simTime = true
  time : ∀ t s, tl.atTime? t = some s ↔ LatestAt came t s
  noReport : tl.StepsGrow →
    ∀ step, tl.atReport? step = none ↔ ∀ s ∈ tl.entries, step < s.reportStep
  report : tl.StepsGrow → ∀ step s, tl.atReport? step = some s ↔
    ∃ before after, tl.entries.toList = before ++ s :: after ∧ s.reportStep ≤ step ∧
      ∀ u ∈ after, step < u.reportStep
  keyTime : ∀ t, tl.lookup? (.time t) = tl.atTime? t
  keyReport : ∀ step, tl.lookup? (.report step) = tl.atReport? step

/-- After any calls a time finds the last to come of the latest snapshots not after it,
and a step, if steps grow along the entries, the last entry not past it. -/
theorem lookup?_exact (name : String) (arrivals : List Snapshot) :
    (ofArrivals name arrivals).Answers (ofWell name arrivals) := by
  have h := ofArrivals_stableSort name arrivals
  constructor
  case noTime => exact fun t => atTime?_eq_none h
  case time => exact fun t s => atTime?_eq_some h
  case noReport => exact fun hsteps step => atReport?_eq_none hsteps
  case report => exact fun hsteps step s => atReport?_eq_some hsteps
  case keyTime => exact fun t => rfl
  case keyReport => exact fun step => rfl

/-- A snapshot with nothing known but its time. -/
def visit (name : String) (step : Int32) (second : Int) : Snapshot :=
  { (default : Snapshot) with name, reportStep := step, simTime := ⟨second, 0⟩ }

/-- Two snapshots of one time come late, and one of another well comes between. -/
def tiedVisits : List Snapshot :=
  [visit "P" 1 30, visit "P" 4 90, visit "P" 2 50, visit "Q" 5 50, visit "P" 3 50]

theorem stableSort_tiedVisits : StableSort (ofWell "P" tiedVisits)
    [visit "P" 1 30, visit "P" 2 50, visit "P" 3 50, visit "P" 4 90] := by
  refine ⟨by decide +kernel, by decide +kernel, fun t => ?_⟩
  have hcame : ofWell "P" tiedVisits =
      [visit "P" 1 30, visit "P" 4 90, visit "P" 2 50, visit "P" 3 50] := rfl
  rw [hcame]
  simp only [List.filter_cons, List.filter_nil]
  by_cases htied : (⟨50, 0⟩ : Instant) = t
  · subst htied
    decide +kernel
  · have hfails : ∀ step, (visit "P" step 50).simTime ≠ t := fun _ => htied
    simp only [hfails, decide_false, Bool.false_eq_true, if_false]

theorem lookup?_exact_tiedVisits : (ofArrivals "P" tiedVisits).StepsGrow ∧
    LatestAt (ofWell "P" tiedVisits) ⟨60, 0⟩ (visit "P" 3 50) ∧
    (∀ u ∈ (ofArrivals "P" tiedVisits).entries, 0 < u.reportStep) ∧
    ∃ before after, (ofArrivals "P" tiedVisits).entries.toList =
      before ++ visit "P" 2 50 :: after ∧ (2 : Int32) ≤ 2 ∧ ∀ u ∈ after, 2 < u.reportStep := by
  have h := ofArrivals_stableSort "P" tiedVisits
  have hentries := h.unique stableSort_tiedVisits
  have hsteps : (ofArrivals "P" tiedVisits).StepsGrow := by
    rw [StepsGrow, hentries]
    decide +kernel
  have hanswers := lookup?_exact "P" tiedVisits
  refine ⟨hsteps, (hanswers.time _ _).mp ?_, (hanswers.noReport hsteps 0).mp ?_,
    (hanswers.report hsteps 2 _).mp ?_⟩
  · rw [atTime?, lastPassing?_eq (divides_notAfter h), hentries]
    decide +kernel
  · rw [atReport?, lastPassing?_eq hsteps.divides, hentries]
    decide +kernel
  · rw [atReport?, lastPassing?_eq hsteps.divides, hentries]
    decide +kernel

end Timeline

end Wellbore
