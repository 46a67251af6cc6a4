import Wellbore.Case.Loading
import Wellbore.Proofs.Archive.Family
import Wellbore.Proofs.Reconstruction.Separation

/-!
# A report is loaded as a whole or not at all

Every well is judged before the first snapshot is archived, and archiving cannot fail:
a snapshot goes to the timeline of its own name, and a timeline stands under the name it
has. So a report with a global grid has only two ways out. Either some well spoils it,
which takes strict mode, and the archive is the one from before; or all good wells are
archived.

One reader serves all wells. That it has read other wells before does not show, so each
well is judged as if it were alone, and what is archived and what is skipped can be told
well by well.
-/

namespace Wellbore

/-! ## Judging the wells -/

namespace Report

open GridRecords (SameShape SameSegments)

variable {report : Report} {g : GridRecords} {catalog : Option GridCatalog}
  {options : LoadOptions} {well : Nat} {s s' : Snapshot} {held : SegmentReals}

/-- What becomes of a well that is reconstructed with a reader of its own. -/
def outcomeOf (report : Report) (g : GridRecords) (catalog : Option GridCatalog)
    (options : LoadOptions) (well : Nat) : Except TopologyError Snapshot :=
  (report.reconstruct (report.realsReader g) catalog options well).1

/-- The wells of the global grid in order, with what becomes of each. -/
def outcomes (report : Report) (g : GridRecords) (catalog : Option GridCatalog)
    (options : LoadOptions) : List WellResult :=
  g.wellNames.zipIdx.map fun (name, well) => (name, report.outcomeOf g catalog options well)

theorem reconstruct_eq_outcomeOf (catalog : Option GridCatalog) (options : LoadOptions)
    (well : Nat) (held : SegmentReals) (hg : report.globalGrid = .ok g) : ∃ held',
    report.reconstruct ⟨report.header, g, held⟩ catalog options well =
      (report.outcomeOf g catalog options well, ⟨report.header, g, held'⟩) := by
  obtain ⟨answer, k, k', hx, hy⟩ :
      RealsReader.Alike report.header g g
        (report.reconstruct ⟨report.header, g, held⟩ catalog options well)
        (report.reconstruct ⟨report.header, g, {}⟩ catalog options well) :=
    reconstruct_alike options held {} rfl hg hg (SameShape.refl g) rfl
      (fun _ block _ _ => SameSegments.refl report.header block g) fun _ _ _ => rfl
  have hanswer : report.outcomeOf g catalog options well = answer := congrArg Prod.fst hy
  exact ⟨k, by rw [hx, hanswer]⟩

theorem reconstructFrom_eq (hg : report.globalGrid = .ok g) (names : List String) :
    report.reconstructFrom catalog options well names ⟨report.header, g, held⟩ =
      (names.zipIdx well).map fun (name, well) =>
        (name, report.outcomeOf g catalog options well) := by
  induction names generalizing well held with
  | nil => rfl
  | cons name rest ih =>
      obtain ⟨held', hfirst⟩ := reconstruct_eq_outcomeOf catalog options well held hg
      unfold reconstructFrom
      rw [hfirst, List.zipIdx_cons, List.map_cons]
      dsimp only
      rw [ih]

theorem reconstructAll_eq (hg : report.globalGrid = .ok g) :
    report.reconstructAll g catalog options = report.outcomes g catalog options :=
  reconstructFrom_eq hg g.wellNames

theorem name_of_outcomeOf (hg : report.globalGrid = .ok g)
    (hs : report.outcomeOf g catalog options well = .ok s) :
    g.wellNames[well]? = some s.name := by
  obtain ⟨g', w, topology, hg', hw, -, hadd⟩ := reconstruct_eq_ok.mp (Prod.ext hs rfl)
  cases hg.symm.trans hg'
  rw [name_of_addGrids hadd]
  exact WellHeader.name_of_decode hw

theorem simTime_of_outcomeOf (hs : report.outcomeOf g catalog options well = .ok s) :
    s.simTime = report.header.simTime := by
  obtain ⟨_, w, topology, -, -, -, hadd⟩ := reconstruct_eq_ok.mp (Prod.ext hs rfl)
  exact simTime_of_addGrids hadd

theorem getElem?_outcomes (report : Report) (g : GridRecords) (n : Nat) :
    (report.outcomes g catalog options)[n]? =
      g.wellNames[n]?.map fun name => (name, report.outcomeOf g catalog options n) := by
  rw [outcomes, List.getElem?_map, List.getElem?_zipIdx, Option.map_map, Nat.zero_add]
  rfl

theorem mem_outcomes {name : String} {outcome : Except TopologyError Snapshot} :
    (name, outcome) ∈ report.outcomes g catalog options ↔
      ∃ n, g.wellNames[n]? = some name ∧ report.outcomeOf g catalog options n = outcome := by
  simp only [List.mem_iff_getElem?, getElem?_outcomes, Option.map_eq_some_iff, Prod.mk.injEq]
  constructor
  · rintro ⟨n, name', hname, rfl, hout⟩
    exact ⟨n, hname, hout⟩
  · rintro ⟨n, hname, hout⟩
    exact ⟨n, name, hname, rfl, hout⟩

end Report

/-! ## Good and bad wells -/

/-- What comes of wells that are taken one after the other: the names of those that are
archived, those that are skipped with their errors, and the snapshots that are added. -/
inductive Sifts (outcomeOf : Nat → Except TopologyError Snapshot) :
    (well : Nat) → (names archived : List String) → (skipped : List (String × TopologyError)) →
    (added : List Snapshot) → Prop where
  | done {well : Nat} : Sifts outcomeOf well [] [] [] []
  | good {well : Nat} {name : String} {names archived : List String}
      {skipped : List (String × TopologyError)} {s : Snapshot} {added : List Snapshot}
      (ok : outcomeOf well = .ok s)
      (rest : Sifts outcomeOf (well + 1) names archived skipped added) :
      Sifts outcomeOf well (name :: names) (name :: archived) skipped (s :: added)
  | bad {well : Nat} {name : String} {names archived : List String}
      {skipped : List (String × TopologyError)} {e : TopologyError} {added : List Snapshot}
      (error : outcomeOf well = .error e)
      (rest : Sifts outcomeOf (well + 1) names archived skipped added) :
      Sifts outcomeOf well (name :: names) archived ((name, e) :: skipped) added

section
variable {outcomeOf : Nat → Except TopologyError Snapshot} {results : List WellResult}

/-- Wells that are listed under the names of their snapshots are sifted into those that have a
snapshot and those that are bad. -/
theorem sifts_of_zipIdx {names : List String} {well : Nat}
    (h : ∀ p ∈ names.zipIdx well, ∀ s, outcomeOf p.2 = .ok s → s.name = p.1)
    (hresults : results = (names.zipIdx well).map fun p => (p.1, outcomeOf p.2)) :
    Sifts outcomeOf well names ((goodSnapshots results).map Snapshot.name) (badWells results)
      (goodSnapshots results) := by
  induction names generalizing well results with
  | nil =>
      rw [hresults]
      exact .done
  | cons name rest ih =>
      rw [List.zipIdx_cons] at h
      obtain ⟨hfirst, hrest⟩ := List.forall_mem_cons.mp h
      have hsifts := ih hrest rfl
      rw [hresults, List.zipIdx_cons, List.map_cons]
      dsimp only
      cases hout : outcomeOf well with
      | error e => exact .bad hout hsifts
      | ok s =>
          have hname : s.name = name := hfirst s hout
          rw [← hname]
          exact .good hout hsifts

theorem badWells_eq_nil (h : ∀ r ∈ results, r.2.isOk) : badWells results = [] := by
  unfold badWells
  rw [List.filterMap_eq_nil_iff]
  rintro ⟨name, e | s⟩ hr
  · cases h _ hr
  · rfl

/-- The first bad well comes first among the bad ones. -/
theorem badWells_eq_cons {n : Nat} {name : String} {e : TopologyError}
    (hn : results[n]? = some (name, .error e))
    (hbefore : ∀ m < n, ∀ r, results[m]? = some r → r.2.isOk) :
    ∃ rest, badWells results = (name, e) :: rest := by
  induction results generalizing n with
  | nil => cases hn
  | cons r rest ih =>
      cases n with
      | zero =>
          cases hn
          exact ⟨badWells rest, rfl⟩
      | succ n =>
          have hfirst := hbefore 0 (Nat.zero_lt_succ n) r rfl
          obtain ⟨later, hlater⟩ := ih hn fun m hm => hbefore (m + 1) (Nat.succ_lt_succ hm)
          obtain ⟨name', e' | s⟩ := r
          · cases hfirst
          · exact ⟨later, hlater⟩

end

/-! ## Loading -/

namespace Archive

open Report (outcomes outcomeOf getElem?_outcomes mem_outcomes)

variable {a : Archive} {report : Report} {g : GridRecords} {catalog : Option GridCatalog}
  {options : LoadOptions}

theorem loadReport_eq (hg : report.globalGrid = .ok g) :
    a.loadReport report catalog options = a.loadResults report.header.reportStep options.strict
      (report.outcomes g catalog options) := by
  unfold loadReport
  rw [hg, ← Report.reconstructAll_eq hg]

theorem loadReport_of_unspoiled (hg : report.globalGrid = .ok g)
    (hunspoiled : options.strict = false ∨ badWells (report.outcomes g catalog options) = []) :
    a.loadReport report catalog options =
      (.ok {
        reportStep := report.header.reportStep
        archived := (goodSnapshots (report.outcomes g catalog options)).map Snapshot.name
        skipped := badWells (report.outcomes g catalog options) },
      a.withSnapshots (goodSnapshots (report.outcomes g catalog options))) := by
  rw [loadReport_eq hg]
  unfold loadResults
  dsimp only
  split
  next hstrict hbad =>
    rcases hunspoiled with hlenient | hnone
    · rw [hlenient] at hstrict
      cases hstrict
    · rw [hnone] at hbad
      cases hbad
  next => rw [addAll_eq]

theorem loadReport_of_spoiled {name : String} {e : TopologyError}
    {rest : List (String × TopologyError)} (hg : report.globalGrid = .ok g)
    (hstrict : options.strict = true)
    (hbad : badWells (report.outcomes g catalog options) = (name, e) :: rest) :
    a.loadReport report catalog options =
      (.error (.topology name report.header.reportStep e), a) := by
  rw [loadReport_eq hg]
  unfold loadResults
  rw [hstrict, hbad]

/-- The snapshots that a report brings carry the names of their wells. -/
theorem sifts_outcomes (hg : report.globalGrid = .ok g) :
    Sifts (report.outcomeOf g catalog options) 0 g.wellNames
      ((goodSnapshots (report.outcomes g catalog options)).map Snapshot.name)
      (badWells (report.outcomes g catalog options))
      (goodSnapshots (report.outcomes g catalog options)) := by
  refine sifts_of_zipIdx (fun p hp s hs => ?_) rfl
  have hname := Report.name_of_outcomeOf hg hs
  rw [List.mem_zipIdx_iff_getElem?.mp hp, Option.some.injEq] at hname
  exact hname.symm

/-- How loading a report with a global grid ends; no good well is refused. -/
structure Loads (a : Archive) (report : Report) (catalog : Option GridCatalog)
    (options : LoadOptions) (g : GridRecords) : Prop where
  lenient : options.strict = false → ∃ archived skipped added,
    Sifts (report.outcomeOf g catalog options) 0 g.wellNames archived skipped added ∧
      a.addAll added = (.ok (), a.withSnapshots added) ∧
      a.loadReport report catalog options =
        (.ok { reportStep := report.header.reportStep, archived, skipped },
          a.withSnapshots added)
  faultless : (∀ well < g.wells, (report.outcomeOf g catalog options well).isOk) →
    a.loadReport report catalog options =
      a.loadReport report catalog { options with strict := false }
  spoiled : options.strict = true → ∀ well name e, g.wellNames[well]? = some name →
    report.outcomeOf g catalog options well = .error e →
    (∀ m < well, (report.outcomeOf g catalog options m).isOk) →
    a.loadReport report catalog options =
      (.error (.topology name report.header.reportStep e), a)

theorem loads_of_globalGrid (hg : report.globalGrid = .ok g) :
    a.Loads report catalog options g := by
  constructor
  case lenient =>
    exact fun hlenient => ⟨_, _, _, sifts_outcomes hg, addAll_eq a _,
      loadReport_of_unspoiled hg (.inl hlenient)⟩
  case faultless =>
    intro hgood
    have hnone : badWells (report.outcomes g catalog options) = [] := by
      refine badWells_eq_nil fun r hr => ?_
      obtain ⟨n, hname, hout⟩ := mem_outcomes.mp hr
      obtain ⟨hlt, -⟩ := List.getElem?_eq_some_iff.mp hname
      rw [← hout]
      exact hgood n hlt
    have hlenient : report.outcomes g catalog { options with strict := false } =
        report.outcomes g catalog options := rfl
    rw [loadReport_of_unspoiled hg (.inr hnone), loadReport_of_unspoiled hg (.inl rfl), hlenient]
  case spoiled =>
    intro hstrict well name e hname hout hbefore
    have hwell : (report.outcomes g catalog options)[well]? = some (name, .error e) := by
      rw [getElem?_outcomes, hname, Option.map_some, hout]
    obtain ⟨rest, hbad⟩ := badWells_eq_cons hwell fun m hm r hr => by
      rw [getElem?_outcomes, Option.map_eq_some_iff] at hr
      obtain ⟨_, -, rfl⟩ := hr
      exact hbefore m hm
    exact loadReport_of_spoiled hg hstrict hbad

/-- Without a global grid nothing is loaded. Otherwise a lenient load archives exactly the
good wells, a strict one of good wells alone does the same, and a strict one of a report
with a bad well names the first of them and leaves the archive as it was. -/
theorem loadReport_whole_or_not (a : Archive) (report : Report) (catalog : Option GridCatalog)
    (options : LoadOptions) :
    ((∀ r ∈ report.grids, r.grid ≠ .global) → a.loadReport report catalog options =
        (.error (.restart (.unknownGrid .global)), a)) ∧
      ((∃ r ∈ report.grids, r.grid = .global) →
        ∃ g, report.globalGrid = .ok g ∧ a.Loads report catalog options g) := by
  constructor
  · intro hnone
    have hg : report.globalGrid = .error (.unknownGrid .global) := by
      have hfind : report.grids.find? (fun g => g.grid = .global) = none := by
        simpa using hnone
      unfold Report.globalGrid Report.grid
      rw [hfind]
    unfold loadReport
    rw [hg]
  · rintro ⟨r, hr, hglobal⟩
    have hsome : (report.grids.find? fun g => g.grid = .global).isSome = true :=
      List.find?_isSome.mpr ⟨r, hr, decide_eq_true hglobal⟩
    obtain ⟨g, hfind⟩ := Option.isSome_iff_exists.mp hsome
    have hg := Report.globalGrid_eq_ok.mpr hfind
    exact ⟨g, hg, loads_of_globalGrid hg⟩

/-- The archive of a case in which both wells have been read once. -/
def beside : Archive := ((default : Archive).loadReport Report.besideGood none {}).2

theorem loadReport_whole_or_not_beside : beside.names = ["P", "Q"] ∧
    beside.loadReport { Report.besideBad with grids := [] } none {} =
        (.error (.restart (.unknownGrid .global)), beside) ∧
      beside.loadReport Report.besideBad none {} =
        (.error (.topology "Q" 1 (.selfOutlet 1)), beside) ∧
      (∃ g s, Report.besideBad.globalGrid = .ok g ∧
        Report.besideBad.outcomeOf g none { strict := false } 0 = .ok s ∧
        beside.loadReport Report.besideBad none { strict := false } =
          (.ok ⟨1, ["P"], [("Q", .selfOutlet 1)]⟩, beside.withSnapshots [s])) ∧
      beside.loadReport Report.besideGood none {} =
        beside.loadReport Report.besideGood none { strict := false } := by
  let g : GridRecords := Report.besideGood.grids.headD default
  let g' : GridRecords := Report.besideBad.grids.headD default
  have hg : Report.besideGood.globalGrid = .ok g :=
    Report.globalGrid_of_head? (by decide +kernel)
  have hg' : Report.besideBad.globalGrid = .ok g' :=
    Report.globalGrid_of_head? (by decide +kernel)
  obtain ⟨hgood, hstep, hnames, hwells⟩ :
      (∀ well < g.wells, (Report.besideGood.outcomeOf g none {} well).isOk) ∧
        Report.besideBad.header.reportStep = 1 ∧ g'.wellNames = ["P", "Q"] ∧
        ∀ strict, (Report.besideBad.outcomeOf g' none { strict } 0).isOk ∧
          (Report.besideBad.outcomeOf g' none { strict } 1).map Snapshot.name =
            .error (.selfOutlet 1) := by
    decide +kernel
  have hnone : ∀ r ∈ ({ Report.besideBad with grids := [] } : Report).grids, r.grid ≠ .global :=
    fun _ h => nomatch h
  have hglobal : ∃ r ∈ Report.besideGood.grids, r.grid = .global := ⟨g, by decide +kernel⟩
  have hglobal' : ∃ r ∈ Report.besideBad.grids, r.grid = .global := ⟨g', by decide +kernel⟩
  clear_value g g'
  have hq : ∀ strict, Report.besideBad.outcomeOf g' none { strict } 1 =
      .error (.selfOutlet 1) := by
    intro strict
    have hfault := (hwells strict).2
    rcases hq : Report.besideBad.outcomeOf g' none { strict } 1 with e | s <;>
      rw [hq] at hfault <;> cases hfault
    rfl
  refine ⟨by decide +kernel, (loadReport_whole_or_not beside _ none {}).1 hnone, ?_, ?_, ?_⟩
  · obtain ⟨_, hfound, hloads⟩ :=
      (loadReport_whole_or_not beside Report.besideBad none {}).2 hglobal'
    cases hg'.symm.trans hfound
    rw [hloads.spoiled rfl 1 "Q" _ (by rw [hnames]; rfl) (hq true) fun m hm => ?_, hstep]
    rw [Nat.lt_one_iff.mp hm]
    exact (hwells true).1
  · obtain ⟨_, hfound, hloads⟩ :=
      (loadReport_whole_or_not beside Report.besideBad none { strict := false }).2 hglobal'
    cases hg'.symm.trans hfound
    obtain ⟨archived, skipped, added, hsifts, -, hload⟩ := hloads.lenient rfl
    rw [hstep] at hload
    rw [hnames] at hsifts
    cases hsifts with
    | bad herror _ => cases (congrArg Except.isOk herror).symm.trans (hwells false).1
    | good hok hrest =>
        cases hrest with
        | good hok' _ => cases (hq false).symm.trans hok'
        | bad herror hrest' =>
            cases hrest'
            cases (hq false).symm.trans herror
            exact ⟨_, _, hg', hok, hload⟩
  · obtain ⟨_, hfound, hloads⟩ :=
      (loadReport_whole_or_not beside Report.besideGood none {}).2 hglobal
    cases hg.symm.trans hfound
    exact hloads.faultless hgood

end Archive

end Wellbore
