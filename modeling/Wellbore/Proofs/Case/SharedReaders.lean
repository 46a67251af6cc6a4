import Wellbore.Proofs.Case.Loading

/-!
# It does not matter which reader serves which call

A reader of segment reals keeps what it read last, and a row that is bad half way leaves the
values half replaced. Whatever a reader has been asked before, the next answer is the one that a
new reader would give: the step lemma `serve_eq` says that a call leaves a reader over the same
records, and that the answer does not depend on what is held.

So the wells of a report can be dealt out to any number of readers, in any order. Each result is
put back at the number of its well, and loading the report ends as it does with one reader that
takes the wells in turn.
-/

namespace Wellbore

/-- What a reader of segment reals can be asked for: a row, the table of a well, or a whole
reconstruction. -/
inductive ReaderCall where
  | row (well block row : Nat)
  | table (well : Nat)
  | snapshot (catalog : Option GridCatalog) (options : LoadOptions) (well : Nat)

inductive ReaderAnswer where
  | row (result : Except RecordError SegmentReals)
  | table (result : Except TopologyError (Option SegmentTable))
  | snapshot (result : Except TopologyError Snapshot)
deriving DecidableEq

namespace Report

open GridRecords (SameShape SameSegments)

variable {report : Report} {g : GridRecords} {catalog : Option GridCatalog}
  {options : LoadOptions} {held : SegmentReals}

/-! ## Calls on one reader -/

/-- The answer to a call, and the reader after. -/
def serve (report : Report) (reader : RealsReader) : ReaderCall → ReaderAnswer × RealsReader
  | .row well block row =>
    let (result, reader) := reader.read well block row
    (.row result, reader)
  | .table well =>
    let (result, reader) := SegmentTable.load reader well
    (.table result, reader)
  | .snapshot catalog options well =>
    let (result, reader) := report.reconstruct reader catalog options well
    (.snapshot result, reader)

/-- The answers to some calls that one reader serves in turn. -/
def serveAll (report : Report) : RealsReader → List ReaderCall → List ReaderAnswer
  | _, [] => []
  | reader, c :: rest =>
    let (answer, reader) := report.serve reader c
    answer :: report.serveAll reader rest

/-- The answer of a reader that has been asked nothing before. -/
def freshAnswer (report : Report) (g : GridRecords) (c : ReaderCall) : ReaderAnswer :=
  (report.serve (report.realsReader g) c).1

theorem serve_eq (held : SegmentReals) (hg : report.globalGrid = .ok g) (c : ReaderCall) :
    ∃ held', report.serve ⟨report.header, g, held⟩ c =
      (report.freshAnswer g c, ⟨report.header, g, held'⟩) := by
  cases c with
  | row well block row =>
      obtain ⟨k, hread⟩ := RealsReader.read_eq ⟨report.header, g, held⟩ well block row
      obtain ⟨k', hfresh⟩ := RealsReader.read_eq ⟨report.header, g, {}⟩ well block row
      refine ⟨k, ?_⟩
      simp only [freshAnswer, realsReader, serve, hread, hfresh]
  | table well =>
      obtain ⟨answer, k, k', hload, hfresh⟩ :=
        SegmentTable.load_alike held {} (SameShape.refl g)
          (rfl : WellHeader.decode report.header g well = _)
          fun _ block _ _ => SameSegments.refl report.header block g
      refine ⟨k, ?_⟩
      simp only [freshAnswer, realsReader, serve, hload, hfresh]
  | snapshot catalog options well =>
      obtain ⟨k, hrun⟩ := reconstruct_eq_outcomeOf catalog options well held hg
      refine ⟨k, ?_⟩
      simp only [freshAnswer, serve, hrun]
      rfl

theorem serveAll_eq_map (held : SegmentReals) (hg : report.globalGrid = .ok g)
    (calls : List ReaderCall) :
    report.serveAll ⟨report.header, g, held⟩ calls = calls.map (report.freshAnswer g) := by
  induction calls generalizing held with
  | nil => rfl
  | cons c rest ih =>
      obtain ⟨held', hfirst⟩ := serve_eq held hg c
      rw [serveAll, hfirst, List.map_cons]
      dsimp only
      rw [ih]

/-! ## Wells dealt out to several readers -/

/-- Reconstructs some wells with one reader; every result keeps the number of its well. -/
def reconstructEach (report : Report) (catalog : Option GridCatalog) (options : LoadOptions) :
    List Nat → RealsReader → List (Nat × Except TopologyError Snapshot)
  | [], _ => []
  | well :: rest, reader =>
    let (result, reader) := report.reconstruct reader catalog options well
    (well, result) :: report.reconstructEach catalog options rest reader

/-- The results for the wells of the global grid, every share of the wells having a reader of
its own. -/
def reconstructShared (report : Report) (g : GridRecords) (catalog : Option GridCatalog)
    (options : LoadOptions) (shares : List (List Nat)) : List WellResult :=
  let results := shares.flatMap fun wells =>
    report.reconstructEach catalog options wells (report.realsReader g)
  g.wellNames.zipIdx.filterMap fun (name, well) =>
    (results.lookup well).map fun result => (name, result)

theorem reconstructEach_eq (hg : report.globalGrid = .ok g) (wells : List Nat) :
    report.reconstructEach catalog options wells ⟨report.header, g, held⟩ =
      wells.map fun well => (well, report.outcomeOf g catalog options well) := by
  induction wells generalizing held with
  | nil => rfl
  | cons well rest ih =>
      obtain ⟨held', hfirst⟩ := reconstruct_eq_outcomeOf catalog options well held hg
      rw [reconstructEach, hfirst, List.map_cons]
      dsimp only
      rw [ih]

/-- A result that hangs on the number alone is found under every number that was dealt out. -/
theorem lookup_map_of_mem {β : Type} {f : Nat → β} {wells : List Nat} {well : Nat}
    (hwell : well ∈ wells) : (wells.map fun n => (n, f n)).lookup well = some (f well) := by
  induction wells with
  | nil => cases hwell
  | cons n rest ih =>
      rw [List.map_cons, List.lookup_cons]
      by_cases heq : well = n
      · simp [heq]
      · rw [beq_false_of_ne heq]
        exact ih ((List.mem_cons.mp hwell).resolve_left heq)

/-- Who served a well does not show in the results. -/
theorem reconstructShared_eq {shares : List (List Nat)} (hg : report.globalGrid = .ok g)
    (hall : ∀ well < g.wells, well ∈ shares.flatten) :
    report.reconstructShared g catalog options shares =
      report.reconstructAll g catalog options := by
  have hresults : (shares.flatMap fun wells =>
      report.reconstructEach catalog options wells (report.realsReader g)) =
      shares.flatten.map fun well => (well, report.outcomeOf g catalog options well) := by
    rw [← List.flatMap_id, List.map_flatMap]
    exact List.flatMap_congr fun wells _ => reconstructEach_eq hg wells
  rw [reconstructAll_eq hg, outcomes, ← List.filterMap_eq_map, reconstructShared, hresults]
  refine List.filterMap_congr fun p hp => ?_
  obtain ⟨name, well⟩ := p
  have hlt := (List.mem_zipIdx hp).2.1
  have hfound := lookup_map_of_mem (f := report.outcomeOf g catalog options)
    (hall well (by simpa [GridRecords.wells] using hlt))
  dsimp only
  rw [hfound]
  rfl

end Report

namespace Report

variable {report : Report} {g : GridRecords}

/-- Reusing a reader changes no answer, whatever it was asked for before and however that
ended. So loading a report comes to the same however its wells are dealt out to readers. -/
theorem answers_of_sharedReaders (hg : report.globalGrid = .ok g) :
    (∀ held calls, report.serveAll ⟨report.header, g, held⟩ calls =
      calls.map (report.freshAnswer g)) ∧
    ∀ (a : Archive) catalog options shares, (∀ well < g.wells, well ∈ shares.flatten) →
      a.loadResults report.header.reportStep options.strict
          (report.reconstructShared g catalog options shares) =
        a.loadReport report catalog options := by
  refine ⟨fun held calls => serveAll_eq_map held hg calls, fun a catalog options shares hall => ?_⟩
  rw [Archive.loadReport_eq hg, reconstructShared_eq hg hall, reconstructAll_eq hg]

/-- The lateral well, with a diameter in its second row that is no number. -/
def besideSpoiled : Report :=
  { besideGood with grids := besideGood.grids.map fun r =>
      { r with rseg := r.rseg.map fun xs => xs.setIfInBounds 10 (0 / 0) } }

/-- The row is refused after its depth has been taken, and a table and a reconstruction break off
in it. -/
theorem answers_of_sharedReaders_besideSpoiled : ∃ g, besideSpoiled.globalGrid = .ok g ∧
    ((besideSpoiled.realsReader g).read 0 0 1).1.isOk = false ∧
    ((besideSpoiled.realsReader g).read 0 0 1).2.held.depth = 1 ∧
    (∀ held, besideSpoiled.serveAll ⟨besideSpoiled.header, g, held⟩
        [.row 0 0 1, .table 0, .row 1 1 0, .snapshot none {} 0, .row 9 9 9, .snapshot none {} 1] =
      [.row 0 0 1, .table 0, .row 1 1 0, .snapshot none {} 0, .row 9 9 9,
        .snapshot none {} 1].map (besideSpoiled.freshAnswer g)) ∧
    ∀ a : Archive, a.loadResults 1 false
        (besideSpoiled.reconstructShared g none { strict := false } [[1], [], [0]]) =
      a.loadReport besideSpoiled none { strict := false } := by
  let g : GridRecords := besideSpoiled.grids.headD default
  have hg : besideSpoiled.globalGrid = .ok g := globalGrid_of_head? (by decide +kernel)
  obtain ⟨hrefused, hheld, hstep, hall⟩ :
      ((besideSpoiled.realsReader g).read 0 0 1).1.isOk = false ∧
        ((besideSpoiled.realsReader g).read 0 0 1).2.held.depth = 1 ∧
        besideSpoiled.header.reportStep = 1 ∧
        ∀ well < g.wells, well ∈ [[1], [], [0]].flatten := by
    decide +kernel
  obtain ⟨hcalls, hshares⟩ := answers_of_sharedReaders hg
  refine ⟨g, hg, hrefused, hheld, fun held => hcalls held _, fun a => ?_⟩
  rw [← hstep]
  exact hshares a none { strict := false } [[1], [], [0]] hall

end Report

end Wellbore
