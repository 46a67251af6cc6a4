import Wellbore.Proofs.Case.Loading
import Mathlib.Data.List.Perm.Basic

/-!
# Reports may be listed in any order

What a report brings to an archive, and whether it is accepted at all, depends on the
report alone. So loading reports is adding the snapshots of all their good wells in a row,
and the order of the reports only decides in which order the snapshots come.

A timeline is the stable sort of what came, so that order shows nowhere but among the
snapshots of one time. If no two reports have the same time, these come from one report,
and a report brings its snapshots together and in the order of its wells, wherever it is
listed.
-/

namespace Wellbore

/-! ## Snapshots that come in another order -/

section
variable {came came' : List Snapshot} {name : String}

theorem Timeline.ext_entries {tl tl' : Timeline} (hname : tl.name = tl'.name)
    (hentries : tl.entries.toList = tl'.entries.toList) : tl = tl' := by
  obtain ⟨name, entries⟩ := tl
  obtain ⟨name', entries'⟩ := tl'
  rw [Timeline.mk.injEq]
  exact ⟨hname, Array.toList_inj.mp hentries⟩

/-- Two runs bring the same snapshots, those of one time in the same order. -/
structure Arranged (came came' : List Snapshot) : Prop where
  perm : came.Perm came'
  sameTimes : ∀ t, came.filter (fun s => s.simTime = t) = came'.filter fun s => s.simTime = t

theorem Arranged.ofWell (h : Arranged came came') (name : String) :
    Arranged (Timeline.ofWell name came) (Timeline.ofWell name came') where
  perm := h.perm.filter _
  sameTimes t := by
    rw [Timeline.ofWell, Timeline.ofWell, List.filter_comm, h.sameTimes, List.filter_comm]

theorem Timeline.ofArrivals_of_arranged (h : Arranged came came') :
    ofArrivals name came = ofArrivals name came' := by
  refine ext_entries ((name_ofArrivals name came).trans (name_ofArrivals name came').symm) ?_
  have hown := h.ofWell name
  have hsort := (ofArrivals_stableSort name came).of_arranged hown.perm hown.sameTimes
  exact hsort.unique (ofArrivals_stableSort name came')

namespace Archive

theorem ext_timeline? {a b : Archive} (h : ∀ name, a.timeline? name = b.timeline? name) :
    a = b := by
  have hwells : a.wells = b.wells := SortedMap.ext_get? h
  cases a
  cases b
  cases hwells
  rfl

theorem ofArrivals_of_arranged (h : Arranged came came') :
    ofArrivals came = ofArrivals came' := by
  refine ext_timeline? fun name => ?_
  have hown := h.ofWell name
  have hnil : Timeline.ofWell name came = [] ↔ Timeline.ofWell name came' = [] :=
    ⟨fun hnone => (hnone ▸ hown.perm).nil_eq.symm, fun hnone => (hnone ▸ hown.perm).eq_nil⟩
  rw [timeline?_ofArrivals, timeline?_ofArrivals, Timeline.ofArrivals_of_arranged hown]
  simp only [hnil]

end Archive

end

/-! ## What a report brings -/

namespace Report

variable {report : Report} {catalog : Option GridCatalog} {options : LoadOptions}
  {s : Snapshot}

/-- The snapshots of the good wells, in the order of the wells. -/
def snapshots (report : Report) (catalog : Option GridCatalog) (options : LoadOptions) :
    List Snapshot :=
  match report.globalGrid with
  | .ok g => goodSnapshots (report.outcomes g catalog options)
  | .error _ => []

theorem simTime_of_mem_snapshots (hs : s ∈ report.snapshots catalog options) :
    s.simTime = report.header.simTime := by
  unfold snapshots at hs
  split at hs
  next g _ =>
    obtain ⟨⟨name, outcome⟩, hmem, hout⟩ := List.mem_filterMap.mp hs
    obtain ⟨n, -, hn⟩ := mem_outcomes.mp hmem
    cases outcome with
    | error e => cases hout
    | ok s' =>
        cases hout
        exact simTime_of_outcomeOf hn
  next => cases hs

/-- An archive accepts the report; then every archive does. -/
def Accepted (report : Report) (catalog : Option GridCatalog) (options : LoadOptions) : Prop :=
  ∃ (a : Archive) (outcome : ReportOutcome),
    (a.loadReport report catalog options).1 = .ok outcome

/-- How an accepted report is loaded, and what it brings, is the same for all archives. -/
theorem Accepted.loadReport_eq (h : report.Accepted catalog options) : ∃ outcome,
    ∀ a : Archive, a.loadReport report catalog options =
      (.ok outcome, a.withSnapshots (report.snapshots catalog options)) := by
  obtain ⟨b, outcome, hok⟩ := h
  unfold snapshots
  cases hg : report.globalGrid with
  | error e =>
      unfold Archive.loadReport at hok
      rw [hg] at hok
      cases hok
  | ok g =>
      have hunspoiled : options.strict = false ∨
          badWells (report.outcomes g catalog options) = [] := by
        rw [or_iff_not_imp_left, Bool.not_eq_false]
        intro hstrict
        cases hbad : badWells (report.outcomes g catalog options) with
        | nil => rfl
        | cons bad rest =>
            rw [Archive.loadReport_of_spoiled hg hstrict hbad] at hok
            cases hok
      exact ⟨_, fun a => Archive.loadReport_of_unspoiled hg hunspoiled⟩

/-- The snapshots of one time among those of several reports are those of the reports of
that time. -/
theorem filter_snapshots (reports : List Report) (t : Instant) :
    (reports.flatMap fun r => r.snapshots catalog options).filter (fun s => s.simTime = t) =
      (reports.filter fun r => r.header.simTime = t).flatMap
        fun r => r.snapshots catalog options := by
  induction reports with
  | nil => rfl
  | cons r rest ih =>
      rw [List.flatMap_cons, List.filter_append, ih]
      by_cases ht : r.header.simTime = t
      · have hall : (r.snapshots catalog options).filter (fun s => s.simTime = t) =
            r.snapshots catalog options := by
          refine List.filter_eq_self.mpr fun s hs => decide_eq_true ?_
          rw [simTime_of_mem_snapshots hs, ht]
        rw [hall, List.filter_cons_of_pos (by simpa using ht), List.flatMap_cons]
      · have hnone : (r.snapshots catalog options).filter (fun s => s.simTime = t) = [] := by
          refine List.filter_eq_nil_iff.mpr fun s hs htime => ht ?_
          rw [← simTime_of_mem_snapshots hs, of_decide_eq_true htime]
        rw [hnone, List.nil_append, List.filter_cons_of_neg (by simpa using ht)]

/-- Of reports with different times, one at most has a given time. -/
theorem filter_simTime_of_perm {reports reports' : List Report}
    (hperm : reports.Perm reports')
    (htimes : (reports.map fun r => r.header.simTime).Nodup) (t : Instant) :
    reports.filter (fun r => r.header.simTime = t) =
      reports'.filter fun r => r.header.simTime = t := by
  have hfiltered := hperm.filter fun r => r.header.simTime = t
  rcases hfound : reports.filter fun r => r.header.simTime = t with _ | ⟨r, _ | ⟨r', rest⟩⟩
  · rw [hfound] at hfiltered
    rw [hfound, hfiltered.symm.eq_nil]
  · rw [hfound] at hfiltered
    rw [hfound, List.perm_singleton.mp hfiltered.symm]
  · have htwo := htimes.sublist ((List.filter_sublist (p := fun r => r.header.simTime = t)).map _)
    have htime : ∀ r ∈ reports.filter (fun r => r.header.simTime = t), r.header.simTime = t :=
      fun r hr => of_decide_eq_true (List.mem_filter.mp hr).2
    rw [hfound] at htwo htime
    have hr := htime r (by simp)
    have hr' := htime r' (by simp)
    simp [hr, hr'] at htwo

end Report

/-! ## Loading several reports -/

namespace Archive

variable {a : Archive} {catalog : Option GridCatalog} {options : LoadOptions}
  {reports reports' : List Report}

/-- Loads reports one after the other; the first that is not accepted ends it. -/
def loadAll (a : Archive) (catalog : Option GridCatalog) (options : LoadOptions) :
    List Report → Except CaseError (List ReportOutcome) × Archive
  | [] => (.ok [], a)
  | report :: rest =>
    match a.loadReport report catalog options with
    | (.error e, a) => (.error e, a)
    | (.ok outcome, a) =>
      match loadAll a catalog options rest with
      | (.error e, a) => (.error e, a)
      | (.ok outcomes, a) => (.ok (outcome :: outcomes), a)

theorem loadAll_of_accepted (h : ∀ r ∈ reports, r.Accepted catalog options) : ∃ outcomes,
    a.loadAll catalog options reports =
      (.ok outcomes, a.withSnapshots (reports.flatMap fun r => r.snapshots catalog options)) := by
  induction reports generalizing a with
  | nil => exact ⟨[], rfl⟩
  | cons r rest ih =>
      obtain ⟨outcome, hfirst⟩ := (h r List.mem_cons_self).loadReport_eq
      obtain ⟨outcomes, hrest⟩ :=
        ih (a := a.withSnapshots (r.snapshots catalog options))
          fun r hr => h r (List.mem_cons_of_mem _ hr)
      refine ⟨outcome :: outcomes, ?_⟩
      unfold loadAll
      rw [hfirst a]
      dsimp only
      rw [hrest, List.flatMap_cons, withSnapshots, withSnapshots, withSnapshots, List.foldl_append]

theorem accepted_of_loadAll {b : Archive} {outcomes : List ReportOutcome}
    (hload : a.loadAll catalog options reports = (.ok outcomes, b)) :
    ∀ r ∈ reports, r.Accepted catalog options := by
  induction reports generalizing a b outcomes with
  | nil => exact fun r hr => absurd hr List.not_mem_nil
  | cons r rest ih =>
      unfold loadAll at hload
      rcases hfirst : a.loadReport r catalog options with ⟨e | outcome, a'⟩
      · rw [hfirst] at hload
        cases hload
      · rw [hfirst] at hload
        dsimp only at hload
        rcases hrest : a'.loadAll catalog options rest with ⟨e | later, b'⟩
        · rw [hrest] at hload
          cases hload
        · rw [List.forall_mem_cons]
          exact ⟨⟨a, outcome, congrArg Prod.fst hfirst⟩, ih hrest⟩

theorem ofArrivals_snapshots_perm (hperm : reports.Perm reports')
    (htimes : (reports.map fun r => r.header.simTime).Nodup) :
    ofArrivals (reports.flatMap fun r => r.snapshots catalog options) =
      ofArrivals (reports'.flatMap fun r => r.snapshots catalog options) := by
  refine ofArrivals_of_arranged ⟨hperm.flatMap_right _, fun t => ?_⟩
  rw [Report.filter_snapshots, Report.filter_snapshots,
    Report.filter_simTime_of_perm hperm htimes]

/-- Reports of different times, each of which is accepted, make the same archive in
whatever order they are loaded. -/
theorem loadAll_perm (hperm : reports.Perm reports')
    (htimes : (reports.map fun r => r.header.simTime).Nodup)
    (haccepted : ∀ r ∈ reports, r.Accepted catalog options) :
    ∃ outcomes outcomes' archive,
      (default : Archive).loadAll catalog options reports = (.ok outcomes, archive) ∧
        (default : Archive).loadAll catalog options reports' = (.ok outcomes', archive) := by
  obtain ⟨outcomes, hload⟩ := loadAll_of_accepted (a := default) haccepted
  have haccepted' : ∀ r ∈ reports', r.Accepted catalog options :=
    fun r hr => haccepted r (hperm.mem_iff.mpr hr)
  obtain ⟨outcomes', hload'⟩ := loadAll_of_accepted (a := default) haccepted'
  have harchive : ofArrivals (reports.flatMap fun r => r.snapshots catalog options) =
      ofArrivals (reports'.flatMap fun r => r.snapshots catalog options) :=
    ofArrivals_snapshots_perm hperm htimes
  refine ⟨outcomes, outcomes', _, hload, ?_⟩
  rw [hload', ← ofArrivals, ← ofArrivals, harchive]

/-- A later report, in which one of the two wells is bad. -/
def besideLater : Report :=
  { Report.besideBad with header := { Report.besideBad.header with simTime := ⟨10, 0⟩ } }

theorem loadAll_perm_besideLater : ∃ outcomes outcomes' archive,
    (default : Archive).loadAll none { strict := false } [besideLater, Report.besideGood] =
        (.ok outcomes, archive) ∧
      (default : Archive).loadAll none { strict := false } [Report.besideGood, besideLater] =
        (.ok outcomes', archive) ∧
      archive.summaries.map (fun w => (w.name, w.snapshots)) = [("P", 2), ("Q", 1)] := by
  obtain ⟨hlater, hgood, hcounts⟩ :
      ((default : Archive).loadReport besideLater none { strict := false }).1.isOk ∧
        ((default : Archive).loadReport Report.besideGood none { strict := false }).1.isOk ∧
        ((default : Archive).loadAll none { strict := false }
          [Report.besideGood, besideLater]).2.summaries.map (fun w => (w.name, w.snapshots)) =
            [("P", 2), ("Q", 1)] := by
    decide +kernel
  have haccepted : ∀ r ∈ [besideLater, Report.besideGood],
      r.Accepted none { strict := false } := by
    have hisOk : ∀ r : Report,
        ((default : Archive).loadReport r none { strict := false }).1.isOk →
          r.Accepted none { strict := false } := by
      intro r hr
      rcases hload : ((default : Archive).loadReport r none { strict := false }).1 with e | o
      · rw [hload] at hr
        cases hr
      · exact ⟨default, o, hload⟩
    intro r hr
    rcases List.mem_cons.mp hr with rfl | hr
    · exact hisOk _ hlater
    · rw [List.mem_singleton.mp hr]
      exact hisOk _ hgood
  obtain ⟨outcomes, outcomes', archive, hload, hload'⟩ :=
    loadAll_perm (.swap Report.besideGood besideLater []) (by decide +kernel) haccepted
  rw [hload'] at hcounts
  exact ⟨outcomes, outcomes', archive, hload, hload', hcounts⟩

end Archive

/-! ## Opening a case -/

namespace Case

open List (Forall₂)

variable {view : FileView} {paths : List String} {reports : List Report}

/-- Adding the reports at some paths loads them one after the other. -/
theorem addReports_eq (hread : Forall₂ (fun path r => Report.load view path = .ok r) paths reports)
    (case : Case) : addReports view paths case =
      match case.archive.loadAll case.catalog case.config.options reports with
      | (.error e, _) => .error e
      | (.ok outcomes, archive) =>
        .ok { case with archive, outcomes := case.outcomes ++ outcomes } := by
  induction hread generalizing case with
  | nil =>
      unfold addReports Archive.loadAll
      dsimp only
      rw [List.append_nil]
  | cons hpath _ ih =>
      unfold addReports Archive.loadAll
      rw [hpath]
      dsimp only [bind, Except.bind]
      rcases case.archive.loadReport _ case.catalog case.config.options with ⟨e | outcome, a⟩
      · rfl
      · dsimp only
        rw [ih]
        dsimp only
        rcases a.loadAll case.catalog case.config.options _ with ⟨e | outcomes, b⟩
        · rfl
        · simp

/-- The archive of a case does not depend on the order in which its configuration lists
reports of different times, and neither does it whether the case can be opened. -/
theorem archive_ofConfig_perm {config : CaseConfig} {case : Case}
    (hperm : config.reports.Perm paths)
    (hread : Forall₂ (fun path r => Report.load view path = .ok r) config.reports reports)
    (htimes : (reports.map fun r => r.header.simTime).Nodup)
    (hopen : ofConfig view config = .ok case) :
    ∃ case', ofConfig view { config with reports := paths } = .ok case' ∧
      case'.archive = case.archive := by
  unfold ofConfig at hopen ⊢
  obtain ⟨catalog, hcatalog, hadd⟩ := bind_eq_ok.mp hopen
  rw [addReports_eq hread] at hadd
  dsimp only at hadd
  rcases hload : (default : Archive).loadAll catalog config.options reports with ⟨e | outcomes, b⟩
  · rw [hload] at hadd
    cases hadd
  · rw [hload] at hadd
    cases hadd
    obtain ⟨reports', hread', hreports⟩ := List.perm_comp_forall₂ hperm.symm hread
    have haccepted := Archive.accepted_of_loadAll hload
    obtain ⟨_, hloaded⟩ := Archive.loadAll_of_accepted (a := default) haccepted
    have haccepted' : ∀ r ∈ reports', r.Accepted catalog config.options :=
      fun r hr => haccepted r (hreports.mem_iff.mp hr)
    obtain ⟨outcomes', hload'⟩ := Archive.loadAll_of_accepted (a := default) haccepted'
    rw [hcatalog]
    dsimp only [bind, Except.bind]
    rw [addReports_eq hread']
    dsimp only
    rw [hload']
    refine ⟨_, rfl, ?_⟩
    dsimp only
    rw [hload] at hloaded
    rw [(Prod.mk.inj hloaded).2, ← Archive.ofArrivals, ← Archive.ofArrivals,
      Archive.ofArrivals_snapshots_perm hreports.symm htimes]

end Case

end Wellbore
