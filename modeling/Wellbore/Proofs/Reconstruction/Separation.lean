import Wellbore.Proofs.Reconstruction.Stages
import Wellbore.Proofs.Segment.Reading
import Wellbore.Restart.Plan

/-!
# Wells do not get into each other's way

Nothing in a report keeps the rows of one well from another but their addresses. The
number of connections that a header announces is cut to the rows a block has, and the
segment rows are as many as a block has, so a reconstruction reads only rows of the
well's own blocks, on the way to an error no less than on the way to a snapshot. Two
reports that agree on these blocks therefore cannot be told apart.
-/

namespace Wellbore

open GridRecords (SameShape SameRows SameSegments)
open RealsReader (Alike)

variable {h : ReportHeader} {r r' : GridRecords} {well : Nat}

/-! ## Connections -/

namespace Connection

variable {segmented : Bool} {row left : Nat} {w : WellHeader}

theorem decode_congr (hshape : r.SameShape r') (hrows : SameRows h well r r')
    (hrow : row < h.maxConnections) :
    decode h r well row segmented = decode h r' well row segmented := by
  unfold decode
  rw [GridRecords.connectionRow_congr hshape hrows hrow,
    GridRecords.connectionReals_congr hshape hrows hrow, hshape.grid]

theorem decodeFrom_congr (hshape : r.SameShape r') (hrows : SameRows h well r r')
    (hbound : row + left ≤ h.maxConnections) :
    decodeFrom h r well segmented left row = decodeFrom h r' well segmented left row := by
  induction left generalizing row with
  | zero => rfl
  | succ left ih =>
      unfold decodeFrom
      rw [decode_congr hshape hrows (by omega), ih (by omega)]

theorem load_congr (hshape : r.SameShape r') (hrows : SameRows h w.well r r') :
    load h r w segmented = load h r' w segmented := by
  unfold load
  exact decodeFrom_congr hshape hrows (by omega)

end Connection

/-! ## A well -/

namespace Report

variable {catalog : Option GridCatalog} {s : Snapshot} {name : String}

theorem topologyOf_alike (options : LoadOptions) (held held' : SegmentReals)
    (hshape : r.SameShape r')
    (hdecode : WellHeader.decode h r well = WellHeader.decode h r' well)
    (hsame : ∀ w block, WellHeader.decode h r well = .ok w → w.segmentBlock = some block →
      SameSegments h block r r') :
    Alike h r r' (topologyOf ⟨h, r, held⟩ options well)
      (topologyOf ⟨h, r', held'⟩ options well) := by
  obtain ⟨answer, k, k', hload, hload'⟩ :=
    SegmentTable.load_alike held held' hshape hdecode hsame
  unfold topologyOf
  rw [hload, hload']
  split
  next => exact ⟨_, held, held', rfl, rfl⟩
  next =>
    rcases answer with e | _ | t
    · exact ⟨_, k, k', rfl, rfl⟩
    · exact ⟨_, k, k', rfl, rfl⟩
    · -- From here on only the table counts, and the two reports have the same one.
      dsimp only
      rcases t.linkAll with ⟨e | count, t⟩
      · exact ⟨_, k, k', rfl, rfl⟩
      · dsimp only
        split
        next => exact ⟨_, k, k', rfl, rfl⟩
        next =>
          cases t.decompose with
          | error e => exact ⟨_, k, k', rfl, rfl⟩
          | ok branches => exact ⟨_, k, k', rfl, rfl⟩

/-- Two grids are of one shape and agree on the first well of a name, if they list one. -/
structure SameWell (h : ReportHeader) (name : String) (r r' : GridRecords) : Prop where
  shape : r.SameShape r'
  rows : ∀ well, r.findWell? name = some well → SameRows h well r r'

instance : Decidable (SameWell h name r r') :=
  decidable_of_iff (r.SameShape r' ∧ ∀ well ∈ r.findWell? name, SameRows h well r r')
    ⟨fun ⟨shape, rows⟩ => ⟨shape, rows⟩, fun s => ⟨s.shape, s.rows⟩⟩

theorem addGrids_congr {rs rs' : List GridRecords} (hname : s.name = name)
    (hsame : List.Forall₂ (SameWell h name) rs rs') :
    addGrids h catalog rs s = addGrids h catalog rs' s := by
  induction hsame generalizing s with
  | nil => rfl
  | @cons r r' rest rest' hwell _ ih =>
      unfold addGrids
      rw [← GridRecords.findWell?_congr hwell.shape, hname]
      cases hfound : r.findWell? name with
      | none => exact ih hname
      | some well =>
          have hrows := hwell.rows well hfound
          dsimp only
          rw [← WellHeader.decode_congr hwell.shape hrows]
          rcases hw : WellHeader.decode h r well with e | w
          · rfl
          · rw [← WellHeader.well_of_decode hw] at hrows
            dsimp only
            rw [← Connection.load_congr hwell.shape hrows, ← hwell.shape.grid]
            cases Connection.load h r w s.isSegmented with
            | error e => rfl
            | ok cs =>
                dsimp only
                split
                next => rfl
                next => exact ih hname

/-! ## Two reports -/

variable {report report' : Report} {g g' : GridRecords}

/-- Reconstructing a well asks the readers for its segments and the grids for the rest. -/
theorem reconstruct_alike (options : LoadOptions) (held held' : SegmentReals)
    (hheader : report.header = report'.header)
    (hg : report.globalGrid = .ok g) (hg' : report'.globalGrid = .ok g')
    (hshape : g.SameShape g')
    (hdecode : WellHeader.decode report.header g well = WellHeader.decode report.header g' well)
    (hsegments : ∀ w block, WellHeader.decode report.header g well = .ok w →
      w.segmentBlock = some block → SameSegments report.header block g g')
    (hgrids : ∀ w topology, WellHeader.decode report.header g well = .ok w →
      addGrids report.header catalog report.grids (bare report.header w topology) =
        addGrids report.header catalog report'.grids (bare report.header w topology)) :
    Alike report.header g g' (report.reconstruct ⟨report.header, g, held⟩ catalog options well)
      (report'.reconstruct ⟨report.header, g', held'⟩ catalog options well) := by
  obtain ⟨answer, k, k', htopology, htopology'⟩ := topologyOf_alike options
    held held' hshape hdecode hsegments
  unfold reconstruct
  rw [hg, hg', ← hheader]
  dsimp only [Except.bind]
  rw [← hdecode]
  rcases hw : WellHeader.decode report.header g well with e | w
  · exact ⟨_, held, held', rfl, rfl⟩
  · rw [htopology, htopology']
    cases answer with
    | error e => exact ⟨_, k, k', rfl, rfl⟩
    | ok topology =>
        have hadd := hgrids w topology hw
        unfold bare at hadd
        dsimp only
        rw [hadd]
        exact ⟨_, k, k', rfl, rfl⟩

theorem globalGrid_eq_ok : report.globalGrid = .ok g ↔
    report.grids.find? (fun g => g.grid = .global) = some g := by
  unfold globalGrid grid
  cases report.grids.find? fun g => g.grid = .global with
  | none => simp
  | some g' => simp

theorem globalGrid_of_head? (hfirst : report.grids.head?.map (·.grid) = some .global) :
    report.globalGrid = .ok (report.grids.headD default) := by
  obtain ⟨g, hhead, hglobal⟩ := Option.map_eq_some_iff.mp hfirst
  obtain ⟨rest, hgrids⟩ := List.head?_eq_some_iff.mp hhead
  rw [globalGrid_eq_ok, hgrids, List.find?_cons_of_pos (by simp [hglobal]), List.headD_cons]

/-- The first grids of one name stand at one place. -/
theorem find?_forall₂ {R : GridRecords → GridRecords → Prop} {rs rs' : List GridRecords}
    {p : GridRecords → Bool} (hR : ∀ r r', R r r' → p r = p r') (hall : List.Forall₂ R rs rs')
    (hg : rs.find? p = some g) (hg' : rs'.find? p = some g') : R g g' := by
  induction hall with
  | nil => cases hg
  | @cons r r' rest rest' hr _ ih =>
      rw [List.find?_cons] at hg hg'
      rw [← hR r r' hr] at hg'
      cases hp : p r with
      | true =>
          rw [hp] at hg hg'
          cases hg
          cases hg'
          exact hr
      | false =>
          rw [hp] at hg hg'
          exact ih hg hg'

theorem findWell?_of_count {name : String} (hname : r.wellNames[well]? = some name)
    (honce : r.wellNames.count name = 1) : r.findWell? name = some well := by
  obtain ⟨hlt, hget⟩ := List.getElem?_eq_some_iff.mp hname
  have hsplit := List.take_append_drop well r.wellNames
  rw [List.drop_eq_getElem_cons hlt, hget] at hsplit
  have hbefore : (r.wellNames.take well).count name = 0 := by
    rw [← hsplit, List.count_append, List.count_cons_self] at honce
    omega
  refine GridRecords.findWell?_eq_some.mpr ⟨hname, fun j hj heq => ?_⟩
  rw [← List.getElem?_take_of_lt hj] at heq
  exact List.count_eq_zero.mp hbefore (List.mem_of_getElem? heq)

/-- A well whose name the global grid lists once is reconstructed alike from two reports
of one layout that agree, in every grid, on the rows of the first well of that name and, in
the global grid, on the block of segment rows that the well has. -/
theorem reconstruct_of_sameWell {name : String} (hheader : report.header = report'.header)
    (hwells : List.Forall₂ (SameWell report.header name) report.grids report'.grids)
    (hg : report.globalGrid = .ok g) (hg' : report'.globalGrid = .ok g')
    (hname : g.wellNames[well]? = some name) (honce : g.wellNames.count name = 1)
    (hsegments : ∀ w block, WellHeader.decode report.header g well = .ok w →
      w.segmentBlock = some block → SameSegments report.header block g g')
    (catalog : Option GridCatalog) (options : LoadOptions) :
    (report.reconstruct (report.realsReader g) catalog options well).1 =
      (report'.reconstruct (report'.realsReader g') catalog options well).1 := by
  have hglobal : SameWell report.header name g g' := by
    refine find?_forall₂ (fun r r' hr => ?_) hwells (globalGrid_eq_ok.mp hg)
      (globalGrid_eq_ok.mp hg')
    rw [hr.shape.grid]
  have hdecode := WellHeader.decode_congr hglobal.shape
    (hglobal.rows well (findWell?_of_count hname honce))
  have hgrids : ∀ w topology, WellHeader.decode report.header g well = .ok w →
      addGrids report.header catalog report.grids (bare report.header w topology) =
        addGrids report.header catalog report'.grids (bare report.header w topology) := by
    intro w topology hw
    exact addGrids_congr (Option.some.inj ((WellHeader.name_of_decode hw).symm.trans hname)) hwells
  obtain ⟨answer, k, k', hx, hy⟩ := reconstruct_alike options {} {} hheader hg hg'
    hglobal.shape hdecode hsegments hgrids
  rw [realsReader, realsReader, ← hheader, hx, hy]

/-- A lateral well beside another well, which comes first in a refinement. -/
def besideLateral (other : WellPlan) : Report := ReportPlan.report {
  reportStep := 1
  simTime := ⟨0, 0⟩
  wells := [
    { name := "P"
      segmented := true
      segments := [{ outlet := 0, branch := 1 }, { outlet := 1, branch := 2, depth := 1 }]
      connections := [{ i := 1, j := 1, k := 1, segment := 2 }] },
    other]
  refinements := [(.refinement "R", [other, {
    name := "P", connections := [{ i := 2, j := 1, k := 2, segment := 1 }] }])] }

/-- The other well is reconstructed in the first report and not in the second. -/
def besideGood : Report := besideLateral {
  name := "Q"
  segmented := true
  segments := [{ outlet := 0, branch := 1, depth := 7 }]
  connections := [{ i := 3, j := 1, k := 1, segment := 1 }] }

def besideBad : Report := besideLateral {
  name := "Q"
  segmented := true
  headI := 4
  kind := 2
  segments := [{ outlet := 1, branch := 1 }]
  connections := [{ i := 9, j := 1, k := 1, segment := 5, factor := 3 }] }

theorem reconstruct_of_sameWell_besideBad : ∃ g g', besideGood.globalGrid = .ok g ∧
    besideBad.globalGrid = .ok g' ∧ g.iwel ≠ g'.iwel ∧ g.iseg ≠ g'.iseg ∧
    List.Forall₂ (SameWell besideGood.header "P") besideGood.grids besideBad.grids ∧
    ∀ catalog options,
      (besideGood.reconstruct (besideGood.realsReader g) catalog options 0).1 =
        (besideBad.reconstruct (besideBad.realsReader g') catalog options 0).1 := by
  let g : GridRecords := besideGood.grids.headD default
  let g' : GridRecords := besideBad.grids.headD default
  have hg : besideGood.globalGrid = .ok g := globalGrid_of_head? (by decide +kernel)
  have hg' : besideBad.globalGrid = .ok g' := globalGrid_of_head? (by decide +kernel)
  obtain ⟨hheader, hwells, hname, honce, hblock, hsegments, hiwel, hiseg⟩ :
      besideGood.header = besideBad.header ∧
        List.Forall₂ (SameWell besideGood.header "P") besideGood.grids besideBad.grids ∧
        g.wellNames[0]? = some "P" ∧ g.wellNames.count "P" = 1 ∧
        (WellHeader.decode besideGood.header g 0).toOption.bind (·.segmentBlock) = some 0 ∧
        SameSegments besideGood.header 0 g g' ∧ g.iwel ≠ g'.iwel ∧ g.iseg ≠ g'.iseg := by
    decide +kernel
  refine ⟨g, g', hg, hg', hiwel, hiseg, hwells, fun catalog options => ?_⟩
  refine reconstruct_of_sameWell hheader hwells hg hg' hname honce (fun w block hw hwb => ?_)
    catalog options
  rw [hw, Except.toOption, Option.bind_some, hwb] at hblock
  rw [Option.some.inj hblock]
  exact hsegments

end Report

end Wellbore
