import Wellbore.Proofs.Restart.Layout

/-!
# Writing the wells of a grid

While wells are written one after the other, every record is in two parts: the
pieces of the wells that are done, in order, and zeros for those that are left.
`Sheets.layout` says so for all five records at once. Writing a well moves it from
the second part to the first, so writing all of them leaves just their pieces, and
nothing but a lack of memory can prevent it.
-/

namespace Wellbore

namespace Sheets

open WellPlan (hasSegments numbered)

variable {h : ReportHeader} {done rest : List WellPlan} {w : WellPlan}

/-- The records when the wells `done` have been written and the wells `rest` have not. -/
def layout (h : ReportHeader) (done rest : List WellPlan) : Sheets where
  iwel := sheet 0 h.wellWidth (WellPlan.row h.wellWidth) (numbered 0 done) rest.length
  icon := sheet 0 (h.maxConnections * h.connectionWidth)
    (fun w => blockOf 0 h.connectionWidth h.maxConnections w.iconRows) done rest.length
  scon := sheet 0 (h.maxConnections * h.connectionRealWidth)
    (fun w => blockOf 0 h.connectionRealWidth h.maxConnections w.sconRows) done rest.length
  iseg := sheet 0 (h.maxSegments * h.segmentWidth)
    (fun w => blockOf 0 h.segmentWidth h.maxSegments w.isegRows) (done.filter hasSegments)
    (rest.countP hasSegments)
  rseg := sheet 0 (h.maxSegments * h.segmentRealWidth)
    (fun w => blockOf 0 h.segmentRealWidth h.maxSegments w.rsegRows) (done.filter hasSegments)
    (rest.countP hasSegments)
  blocks := done.countP hasSegments

theorem layout_nil : layout h [] rest =
    ⟨Array.replicate (rest.length * h.wellWidth) 0,
      Array.replicate (rest.length * h.maxConnections * h.connectionWidth) 0,
      Array.replicate (rest.length * h.maxConnections * h.connectionRealWidth) 0,
      Array.replicate (rest.countP hasSegments * h.maxSegments * h.segmentWidth) 0,
      Array.replicate (rest.countP hasSegments * h.maxSegments * h.segmentRealWidth) 0, 0⟩ := by
  simp only [layout, numbered, List.filter_nil, sheet_nil, List.countP_nil, Nat.mul_assoc]

/-- The records can be had if and only if there is room for them. -/
theorem blank?_eq_some {s : Sheets} :
    blank? h rest.length (rest.countP hasSegments) = some s ↔
      h.Roomy rest.length (rest.countP hasSegments) ∧ s = layout h [] rest := by
  unfold blank?
  simp only [Option.bind_eq_bind, Option.bind_eq_some_iff, blankRecord?_eq_some, layout_nil]
  constructor
  · rintro ⟨iwel, ⟨hiwel, rfl⟩, icon, ⟨hicon, rfl⟩, scon, ⟨hscon, rfl⟩, iseg, ⟨hiseg, rfl⟩,
      rseg, ⟨hrseg, rfl⟩, hs⟩
    exact ⟨⟨hiwel, hicon, hscon, hiseg, hrseg⟩, (Option.some.inj hs).symm⟩
  · rintro ⟨⟨hiwel, hicon, hscon, hiseg, hrseg⟩, rfl⟩
    exact ⟨_, ⟨hiwel, rfl⟩, _, ⟨hicon, rfl⟩, _, ⟨hscon, rfl⟩, _, ⟨hiseg, rfl⟩, _, ⟨hrseg, rfl⟩,
      rfl⟩

theorem writeSegments?_of {well start : Nat} {s : Sheets} {iwel iseg : Array Int32}
    {rseg : Array Float} (hstart : h.wellStart? well = some start)
    (hiwel : writeFrom? start (w.announcement s.blocks) s.iwel = some iwel)
    (hiseg : writeRows? (h.segmentStart? s.blocks) 0 w.isegRows s.iseg = some iseg)
    (hrseg : writeRows? (h.segmentRealStart? s.blocks) 0 w.rsegRows s.rseg = some rseg) :
    writeSegments? h well w s = some ⟨iwel, s.icon, s.scon, iseg, rseg, s.blocks + 1⟩ := by
  unfold writeSegments?
  rw [WellPlan.isegRows] at hiseg
  rw [WellPlan.rsegRows] at hrseg
  simp only [hstart, hiwel, hiseg, hrseg, Option.bind_eq_bind, Option.bind_some]
  rfl

theorem writeWell?_of {well start : Nat} {s : Sheets} {iwel icon : Array Int32}
    {scon : Array Float} (hstart : h.wellStart? well = some start)
    (hiwel : writeFrom? start w.ints s.iwel = some iwel)
    (hicon : writeRows? (h.connectionStart? well) 0 w.iconRows s.icon = some icon)
    (hscon : writeRows? (h.connectionRealStart? well) 0 w.sconRows s.scon = some scon) :
    writeWell? h well w s =
      if w.hasSegments then writeSegments? h well w ⟨iwel, icon, scon, s.iseg, s.rseg, s.blocks⟩
      else some ⟨iwel, icon, scon, s.iseg, s.rseg, s.blocks⟩ := by
  unfold writeWell?
  rw [WellPlan.iconRows] at hicon
  rw [WellPlan.sconRows] at hscon
  simp only [hstart, hiwel, hicon, hscon, Option.bind_eq_bind, Option.bind_some]

theorem filter_append_hasSegments (hw : w.hasSegments = true) :
    (done ++ [w]).filter hasSegments = done.filter hasSegments ++ [w] := by
  rw [List.filter_append, List.filter_singleton, hw]
  rfl

theorem countP_cons_hasSegments (hw : w.hasSegments = true) :
    (w :: rest).countP hasSegments = rest.countP hasSegments + 1 :=
  List.countP_cons_of_pos hw

/-- A well with segments has its block in the segment records. -/
theorem length_filter_lt (hw : w.hasSegments = true) :
    (done.filter hasSegments).length < (done ++ w :: rest).countP hasSegments := by
  rw [List.countP_append, countP_cons_hasSegments hw, List.countP_eq_length_filter]
  omega

section
variable (hsuits : h.Suits (done ++ w :: rest))
  (hroom : h.Roomy (done ++ w :: rest).length ((done ++ w :: rest).countP hasSegments))
include hsuits hroom

theorem writeRows?_icon : writeRows? (h.connectionStart? done.length) 0 w.iconRows
    (layout h done (w :: rest)).icon = some (layout h (done ++ [w]) rest).icon :=
  writeRows?_block (fun _ hv => hsuits.iconRows (List.mem_append_left _ hv))
    (hsuits.iconRows (by simp)) (hsuits.connectionWidth ▸ Nat.succ_pos _) (by simp)
    (lt_size_of_bytes (by omega) hroom.icon)

theorem writeRows?_scon : writeRows? (h.connectionRealStart? done.length) 0 w.sconRows
    (layout h done (w :: rest)).scon = some (layout h (done ++ [w]) rest).scon :=
  writeRows?_block (fun _ hv => hsuits.sconRows (List.mem_append_left _ hv))
    (hsuits.sconRows (by simp)) (hsuits.connectionRealWidth ▸ Nat.succ_pos _) (by simp)
    (lt_size_of_bytes (by omega) hroom.scon)

theorem writeRows?_iseg (hw : w.hasSegments = true) :
    writeRows? (h.segmentStart? (done.countP hasSegments)) 0 w.isegRows
      (layout h done (w :: rest)).iseg = some (layout h (done ++ [w]) rest).iseg := by
  unfold layout
  simp only [filter_append_hasSegments hw, countP_cons_hasSegments hw,
    List.countP_eq_length_filter (l := done)]
  refine writeRows?_block
    (fun _ hv => hsuits.isegRows (List.mem_append_left _ (List.mem_of_mem_filter hv)))
    (hsuits.isegRows (by simp)) (hsuits.segmentWidth ▸ Nat.succ_pos _) ?_
    (lt_size_of_bytes (by omega) hroom.iseg)
  exact length_filter_lt hw

theorem writeRows?_rseg (hw : w.hasSegments = true) :
    writeRows? (h.segmentRealStart? (done.countP hasSegments)) 0 w.rsegRows
      (layout h done (w :: rest)).rseg = some (layout h (done ++ [w]) rest).rseg := by
  unfold layout
  simp only [filter_append_hasSegments hw, countP_cons_hasSegments hw,
    List.countP_eq_length_filter (l := done)]
  refine writeRows?_block
    (fun _ hv => hsuits.rsegRows (List.mem_append_left _ (List.mem_of_mem_filter hv)))
    (hsuits.rsegRows (by simp)) (hsuits.segmentRealWidth ▸ Nat.succ_pos _) ?_
    (lt_size_of_bytes (by omega) hroom.rseg)
  exact length_filter_lt hw

end

theorem wellStart?_next
    (hroom : h.Roomy (done ++ w :: rest).length ((done ++ w :: rest).countP hasSegments)) :
    h.wellStart? done.length = some (done.length * h.wellWidth) := by
  refine wellStart?_of_lt ?_ (lt_size_of_bytes (by omega) hroom.iwel)
  rw [List.length_append, List.length_cons]
  omega

/-- The well record while the row of `w` lacks the announcement of its segments. -/
def unannounced (h : ReportHeader) (done : List WellPlan) (w : WellPlan)
    (rest : List WellPlan) : Array Int32 :=
  ((numbered 0 done).flatMap (WellPlan.row h.wellWidth) ++
    rowWith 0 h.wellWidth w.ints ++ List.replicate (rest.length * h.wellWidth) 0).toArray

theorem length_rows :
    ((numbered 0 done).flatMap (WellPlan.row h.wellWidth)).length =
      done.length * h.wellWidth := by
  rw [length_flatMap_of_length fun _ _ => WellPlan.length_row, WellPlan.length_numbered]

theorem iwel_layout_append : (layout h (done ++ [w]) rest).iwel =
    ((numbered 0 done).flatMap (WellPlan.row h.wellWidth) ++
      WellPlan.row h.wellWidth (w, done.countP hasSegments) ++
        List.replicate (rest.length * h.wellWidth) 0).toArray := by
  show sheet _ _ _ _ _ = _
  rw [WellPlan.numbered_append, sheet_append, Nat.zero_add]

theorem writeFrom?_ints (hsuits : h.Suits (done ++ w :: rest)) :
    writeFrom? (done.length * h.wellWidth) w.ints (layout h done (w :: rest)).iwel =
      some (unannounced h done w rest) := by
  show writeFrom? _ _ (sheet _ _ _ _ _) = _
  rw [unannounced, ← length_rows, List.length_cons, sheet_succ]
  refine writeFrom?_eq _ _ _ fun v hv => ?_
  rw [List.length_replicate, hsuits.wellWidth]
  exact (WellPlan.fits_ints w).lt v hv

theorem writeFrom?_announcement (hsuits : h.Suits (done ++ w :: rest))
    (hw : w.hasSegments = true) :
    writeFrom? (done.length * h.wellWidth) (w.announcement (done.countP hasSegments))
      (unannounced h done w rest) = some (layout h (done ++ [w]) rest).iwel := by
  rw [iwel_layout_append, WellPlan.row, if_pos hw, ← length_rows]
  refine writeFrom?_eq _ _ _ fun v hv => ?_
  rw [length_rowWith, hsuits.wellWidth]
  exact (WellPlan.fits_announcement w _).lt v hv

theorem unannounced_eq (hw : w.hasSegments = false) :
    unannounced h done w rest = (layout h (done ++ [w]) rest).iwel := by
  rw [iwel_layout_append, WellPlan.row, hw, if_neg Bool.false_ne_true]
  rfl

/-- The records when of the well `w` all but the segments has been written. -/
def midway (h : ReportHeader) (done : List WellPlan) (w : WellPlan) (rest : List WellPlan) :
    Sheets where
  iwel := unannounced h done w rest
  icon := (layout h (done ++ [w]) rest).icon
  scon := (layout h (done ++ [w]) rest).scon
  iseg := (layout h done (w :: rest)).iseg
  rseg := (layout h done (w :: rest)).rseg
  blocks := done.countP hasSegments

theorem midway_eq (hw : w.hasSegments = false) :
    midway h done w rest = layout h (done ++ [w]) rest := by
  rw [midway, unannounced_eq hw]
  simp [layout, hw]

theorem writeSegments?_midway (hsuits : h.Suits (done ++ w :: rest))
    (hroom : h.Roomy (done ++ w :: rest).length ((done ++ w :: rest).countP hasSegments))
    (hw : w.hasSegments = true) :
    writeSegments? h done.length w (midway h done w rest) =
      some (layout h (done ++ [w]) rest) := by
  have hwrite := writeSegments?_of (s := midway h done w rest) (wellStart?_next hroom)
    (writeFrom?_announcement hsuits hw) (writeRows?_iseg hsuits hroom hw)
    (writeRows?_rseg hsuits hroom hw)
  have hblocks : (done ++ [w]).countP hasSegments = done.countP hasSegments + 1 := by
    rw [List.countP_append, List.countP_singleton, hw, if_pos rfl]
  rw [hwrite, midway, ← hblocks]
  rfl

/-- Writing a well moves it from those that are left to those that are done. -/
theorem writeWell?_layout (hsuits : h.Suits (done ++ w :: rest))
    (hroom : h.Roomy (done ++ w :: rest).length ((done ++ w :: rest).countP hasSegments)) :
    writeWell? h done.length w (layout h done (w :: rest)) =
      some (layout h (done ++ [w]) rest) := by
  have hwell : writeWell? h done.length w (layout h done (w :: rest)) =
      if w.hasSegments then writeSegments? h done.length w (midway h done w rest)
      else some (midway h done w rest) :=
    writeWell?_of (wellStart?_next hroom) (writeFrom?_ints hsuits) (writeRows?_icon hsuits hroom)
      (writeRows?_scon hsuits hroom)
  rw [hwell]
  cases hw : w.hasSegments with
  | true =>
      rw [if_pos rfl]
      exact writeSegments?_midway hsuits hroom hw
  | false =>
      rw [if_neg Bool.false_ne_true, midway_eq hw]

/-- Writing all wells leaves their blocks. -/
theorem writeWells?_layout (done : List WellPlan) (hsuits : h.Suits (done ++ rest))
    (hroom : h.Roomy (done ++ rest).length ((done ++ rest).countP hasSegments)) :
    writeWells? h done.length rest (layout h done rest) = some (layout h (done ++ rest) []) := by
  induction rest generalizing done with
  | nil => rw [List.append_nil]; rfl
  | cons w rest ih =>
      have hassoc : done ++ w :: rest = done ++ [w] ++ rest := by simp
      unfold writeWells?
      rw [writeWell?_layout hsuits hroom, Option.bind_eq_bind, Option.bind_some]
      rw [hassoc] at hsuits hroom ⊢
      have hrest := ih (done ++ [w]) hsuits hroom
      rw [List.length_append, List.length_singleton] at hrest
      exact hrest

end Sheets

/-! ## Writing a report -/

theorem mapM_eq_some_iff {α β : Type} {f : α → Option β} {g : α → β} {p : α → Prop}
    {l : List α} {bs : List β} (hf : ∀ a ∈ l, ∀ b, f a = some b ↔ p a ∧ b = g a) :
    l.mapM f = some bs ↔ (∀ a ∈ l, p a) ∧ bs = l.map g := by
  induction l generalizing bs with
  | nil => simp [eq_comm]
  | cons a l ih =>
      have hrest : ∀ bs, l.mapM f = some bs ↔ (∀ a ∈ l, p a) ∧ bs = l.map g := fun _ =>
        ih fun a ha => hf a (List.mem_cons_of_mem _ ha)
      rw [List.mapM_cons]
      simp only [Option.bind_eq_bind, Option.bind_eq_some_iff, hrest,
        hf a (List.mem_cons_self ..), List.forall_mem_cons, List.map_cons]
      constructor
      · rintro ⟨b, ⟨hp, rfl⟩, bs', ⟨hall, rfl⟩, heq⟩
        exact ⟨⟨hp, hall⟩, (Option.some.inj heq).symm⟩
      · rintro ⟨⟨hp, hall⟩, rfl⟩
        exact ⟨_, ⟨hp, rfl⟩, _, ⟨hall, rfl⟩, rfl⟩

namespace ReportPlan

open WellPlan (hasSegments)

/-- A grid of a plan: its wells, and whether its segment records are kept. -/
structure GridPlan where
  grid : GridName
  wells : List WellPlan
  keepsSegments : Bool

/-- The grids of a plan, in the order of the report. -/
def grids (p : ReportPlan) : List GridPlan :=
  ⟨.global, p.wells, !p.omitSegments⟩ :: p.refinements.map fun r => ⟨r.1, r.2, false⟩

/-- Memory can hold the records of a grid. -/
def GridPlan.Fits (h : ReportHeader) (g : GridPlan) : Prop :=
  h.Roomy g.wells.length (g.wells.countP hasSegments)

/-- The records of a grid with all its wells written. -/
def GridPlan.records (h : ReportHeader) (g : GridPlan) : GridRecords :=
  let s := Sheets.layout h g.wells []
  let kept := g.keepsSegments && 0 < g.wells.countP hasSegments
  { grid := g.grid
    wellNames := g.wells.map (·.name)
    iwel := s.iwel
    icon := s.icon
    scon := some s.scon
    iseg := if kept then some s.iseg else none
    rseg := if kept then some s.rseg else none }

theorem records?_eq_some {h : ReportHeader} {g : GridPlan} {r : GridRecords}
    (hsuits : h.Suits g.wells) :
    records? h g.grid g.wells g.keepsSegments = some r ↔ g.Fits h ∧ r = g.records h := by
  unfold records?
  simp only [Option.bind_eq_bind, Option.bind_eq_some_iff, Sheets.blank?_eq_some]
  constructor
  · rintro ⟨s, ⟨hroom, rfl⟩, s', hwrite, heq⟩
    have hall := Sheets.writeWells?_layout [] hsuits hroom
    rw [List.length_nil, List.nil_append] at hall
    rw [hall, Option.some.injEq] at hwrite
    subst hwrite
    exact ⟨hroom, (Option.some.inj heq).symm⟩
  · rintro ⟨hroom, rfl⟩
    exact ⟨_, ⟨hroom, rfl⟩, _, Sheets.writeWells?_layout [] hsuits hroom, rfl⟩

theorem largest_le_iff {counts : List Nat} {n : Nat} :
    largest counts ≤ n ↔ 1 ≤ n ∧ ∀ c ∈ counts, c ≤ n := by
  have hfold : ∀ m, counts.foldl max m ≤ n ↔ m ≤ n ∧ ∀ c ∈ counts, c ≤ n := by
    induction counts with
    | nil => simp
    | cons c counts ih =>
        intro m
        rw [List.foldl_cons, ih, Nat.max_le, List.forall_mem_cons, and_assoc]
  exact hfold 1

theorem le_largest_map {ws : List WellPlan} {w : WellPlan} (count : WellPlan → Nat)
    (hw : w ∈ ws) : count w ≤ largest (ws.map count) :=
  (largest_le_iff.mp (le_refl _)).2 _ (List.mem_map_of_mem hw)

theorem largest_map_le {ws : List WellPlan} {count : WellPlan → Nat} {n : Nat} (hn : 1 ≤ n)
    (hcount : ∀ w ∈ ws, count w ≤ n) : largest (ws.map count) ≤ n :=
  largest_le_iff.mpr ⟨hn, List.forall_mem_map.mpr hcount⟩

theorem mem_allWells {p : ReportPlan} {g : GridPlan} (hg : g ∈ p.grids) {w : WellPlan}
    (hw : w ∈ g.wells) : w ∈ p.allWells := by
  unfold allWells
  rw [grids, List.mem_cons, List.mem_map] at hg
  rcases hg with rfl | ⟨r, hr, rfl⟩
  · exact List.mem_append_left _ hw
  · exact List.mem_append_right _ (List.mem_flatMap.mpr ⟨r, hr, hw⟩)

/-- The header of a plan suits the wells of every grid. -/
theorem suits_header {p : ReportPlan} {g : GridPlan} (hg : g ∈ p.grids) :
    p.header.Suits g.wells where
  wellWidth := rfl
  segmentWidth := rfl
  segmentRealWidth := rfl
  connectionWidth := rfl
  connectionRealWidth := rfl
  connections _ hw := le_largest_map (fun w => w.connections.length) (mem_allWells hg hw)
  segments _ hw := le_largest_map (fun w => w.segments.length) (mem_allWells hg hw)

/-- A report is written if and only if memory can hold the records of every grid. -/
theorem report?_eq_some {p : ReportPlan} {report : Report} :
    p.report? = some report ↔ (∀ g ∈ p.grids, g.Fits p.header) ∧
      report = ⟨p.header, p.grids.map (GridPlan.records p.header)⟩ := by
  have hmap : p.report? =
      (p.grids.mapM fun g => records? p.header g.grid g.wells g.keepsSegments).map
        (Report.mk p.header) := by
    unfold report? grids
    rw [List.mapM_cons, List.mapM_map]
    simp only [Option.bind_eq_bind, Option.map_eq_bind, Option.bind_assoc]
    rfl
  rw [hmap, Option.map_eq_some_iff]
  simp only [mapM_eq_some_iff fun g hg r => records?_eq_some (suits_header hg)]
  constructor
  · rintro ⟨rs, ⟨hfits, rfl⟩, rfl⟩
    exact ⟨hfits, rfl⟩
  · rintro ⟨hfits, rfl⟩
    exact ⟨_, ⟨hfits, rfl⟩, rfl⟩

/-- A plan of ordinary size can be written. -/
theorem exists_report?_eq_some {p : ReportPlan}
    (hwells : ∀ g ∈ p.grids, g.wells.length ≤ 268435456)
    (hrows : ∀ w ∈ p.allWells,
      w.connections.length ≤ 268435456 ∧ w.segments.length ≤ 268435456) :
    ∃ report, p.report? = some report := by
  simp only [report?_eq_some]
  refine ⟨_, fun g hg => ?_, rfl⟩
  exact (suits_header hg).roomy (hwells g hg)
    (largest_map_le (by decide) fun w hw => (hrows w hw).1)
    (largest_map_le (by decide) fun w hw => (hrows w hw).2)

end ReportPlan

end Wellbore
