import Wellbore.Proofs.Time.ReadBack
import Wellbore.Proofs.Json.Records
import Wellbore.Restart.Report

/-!
# Dumps of reports

A report that is written and read again is the same report: its header, its grids in
their order and every record of theirs, with an absent record still absent and an empty
one still empty. What has to be asked of the report for this is only that it can be
held at all (`Report.Held`): sizes of 64 bits, a time that can be shown, and grids
called by their names, so that no refinement bears the name of the global grid.
Everything that is read can be held (`Report.held_of_read?`), and so reading, writing
and reading changes nothing either.

The text is a matter of its own, for a real is not always read as it was written. Where
each real of the report is, the whole text is.
-/

namespace Wellbore

variable {v : Json} {P : Float → Prop} {Q : Prop}

/-! ## Headers -/

/-- A header that can be held: sizes of 64 bits and a time that can be shown. -/
structure ReportHeader.Held (h : ReportHeader) : Prop where
  simTime : h.simTime.Shown
  wellWidth : h.wellWidth < UInt64.size
  maxSegments : h.maxSegments < UInt64.size
  segmentWidth : h.segmentWidth < UInt64.size
  segmentRealWidth : h.segmentRealWidth < UInt64.size
  maxConnections : h.maxConnections < UInt64.size
  connectionWidth : h.connectionWidth < UInt64.size
  connectionRealWidth : h.connectionRealWidth < UInt64.size

namespace ReportHeader

variable {h : ReportHeader}

/-- The fields of a header, none of which is left out. -/
def fields (h : ReportHeader) : List (String × Option Json) :=
  [("report_step", some (.word h.reportStep)), ("sim_time", some (.str h.simTime.text)),
    ("niwelz", some (.nat h.wellWidth)), ("nsegmx", some (.nat h.maxSegments)),
    ("nisegz", some (.nat h.segmentWidth)), ("nrsegz", some (.nat h.segmentRealWidth)),
    ("ncwmax", some (.nat h.maxConnections)), ("niconz", some (.nat h.connectionWidth)),
    ("nsconz", some (.nat h.connectionRealWidth))]

theorem alignedTo_toJson (h : ReportHeader) :
    Document.alignedTo fieldNames h.toJson = some (h.fields.map (·.2)) := by
  have hnames : (h.fields.map (·.1)).Nodup := show fieldNames.Nodup by decide
  exact Json.alignedTo_written hnames

theorem read?_eq_some : read? v = some h ↔
    ∃ step time niwelz nsegmx nisegz nrsegz ncwmax niconz nsconz,
      Document.alignedTo fieldNames v =
        some [step, time, niwelz, nsegmx, nisegz, nrsegz, ncwmax, niconz, nsconz] ∧
      Document.required Document.integer? step = some h.reportStep ∧
      Document.required (fun v : Json => (Document.text? v).bind Instant.parse?) time =
        some h.simTime ∧
      Document.required Document.natural? niwelz = some h.wellWidth ∧
      Document.required Document.natural? nsegmx = some h.maxSegments ∧
      Document.required Document.natural? nisegz = some h.segmentWidth ∧
      Document.required Document.natural? nrsegz = some h.segmentRealWidth ∧
      Document.required Document.natural? ncwmax = some h.maxConnections ∧
      Document.required Document.natural? niconz = some h.connectionWidth ∧
      Document.required Document.natural? nsconz = some h.connectionRealWidth := by
  constructor
  · intro hread
    unfold read? at hread
    simp only [Option.bind_eq_bind, Option.bind_eq_some_iff] at hread
    obtain ⟨values, hvalues, hread⟩ := hread
    split at hread
    next =>
      simp only [Option.bind_eq_some_iff] at hread
      obtain ⟨_, h₁, _, h₂, _, h₃, _, h₄, _, h₅, _, h₆, _, h₇, _, h₈, _, h₉, heq⟩ := hread
      cases heq
      exact ⟨_, _, _, _, _, _, _, _, _, hvalues, h₁, h₂, h₃, h₄, h₅, h₆, h₇, h₈, h₉⟩
    next => cases hread
  · rintro ⟨_, _, _, _, _, _, _, _, _, hvalues, h₁, h₂, h₃, h₄, h₅, h₆, h₇, h₈, h₉⟩
    simp only [read?, hvalues, h₁, h₂, h₃, h₄, h₅, h₆, h₇, h₈, h₉, Option.bind_eq_bind,
      Option.bind_some]
    rfl

theorem read?_toJson (hheld : h.Held) : read? h.toJson = some h := by
  have htime : Document.required (fun v : Json => (Document.text? v).bind Instant.parse?)
      (some (.str h.simTime.text)) = some h.simTime := by
    refine Json.required_eq_some.mpr ⟨_, rfl, ?_⟩
    rw [Json.text?_str, Option.bind_some, Instant.parse?_text hheld.simTime]
  exact read?_eq_some.mpr ⟨_, _, _, _, _, _, _, _, _, alignedTo_toJson h,
    Json.integer?_word h.reportStep, htime,
    Json.natural?_nat hheld.wellWidth, Json.natural?_nat hheld.maxSegments,
    Json.natural?_nat hheld.segmentWidth, Json.natural?_nat hheld.segmentRealWidth,
    Json.natural?_nat hheld.maxConnections, Json.natural?_nat hheld.connectionWidth,
    Json.natural?_nat hheld.connectionRealWidth⟩

theorem proper_toJson (hheld : h.Held) : h.toJson.Proper P Q := by
  show (Json.obj (Fields.written h.fields)).Proper P Q
  refine Json.proper_written fun f hf value hvalue => ?_
  simp only [fields, List.mem_cons, List.not_mem_nil, or_false] at hf
  obtain rfl | rfl | rfl | rfl | rfl | rfl | rfl | rfl | rfl := hf <;> cases hvalue
  · exact Json.proper_word _
  · exact .str _
  · exact Json.proper_nat hheld.wellWidth
  · exact Json.proper_nat hheld.maxSegments
  · exact Json.proper_nat hheld.segmentWidth
  · exact Json.proper_nat hheld.segmentRealWidth
  · exact Json.proper_nat hheld.maxConnections
  · exact Json.proper_nat hheld.connectionWidth
  · exact Json.proper_nat hheld.connectionRealWidth

theorem lt_of_required {field : Option Json} {n : Nat}
    (h : Document.required Document.natural? field = some n) : n < UInt64.size := by
  obtain ⟨v, -, hv⟩ := Json.required_eq_some.mp h
  exact Json.lt_of_natural? hv

theorem held_of_read? (hread : read? v = some h) : h.Held := by
  obtain ⟨_, _, _, _, _, _, _, _, _, -, -, htime, h₁, h₂, h₃, h₄, h₅, h₆, h₇⟩ :=
    read?_eq_some.mp hread
  obtain ⟨_, -, htime⟩ := Json.required_eq_some.mp htime
  obtain ⟨_, -, htime⟩ := Option.bind_eq_some_iff.mp htime
  exact ⟨Instant.shown_of_parse? htime, lt_of_required h₁, lt_of_required h₂, lt_of_required h₃,
    lt_of_required h₄, lt_of_required h₅, lt_of_required h₆, lt_of_required h₇⟩

end ReportHeader

/-! ## Grids -/

theorem GridName.ofText_text {grid : GridName} (h : ∃ name, grid = .ofText name) :
    GridName.ofText grid.text = grid := by
  obtain ⟨name, rfl⟩ := h
  unfold GridName.ofText
  split
  · rfl
  · exact if_neg ‹_›

namespace GridRecords

variable {r : GridRecords}

/-- The fields of a grid, of which the records it does not have are left out. -/
def fields (r : GridRecords) : List (String × Option Json) :=
  [("grid", some (.str r.grid.text)), ("well_names", some (.ofList .str r.wellNames)),
    ("iwel", some (.ofList .word r.iwel.toList)), ("icon", some (.ofList .word r.icon.toList)),
    ("scon", r.scon.map fun xs => .ofList .real xs.toList),
    ("iseg", r.iseg.map fun xs => .ofList .word xs.toList),
    ("rseg", r.rseg.map fun xs => .ofList .real xs.toList)]

theorem toJson_eq_written (r : GridRecords) : r.toJson = .obj (Fields.written r.fields) := by
  obtain ⟨grid, wellNames, iwel, icon, scon, iseg, rseg⟩ := r
  cases scon <;> cases iseg <;> cases rseg <;> rfl

theorem alignedTo_toJson (r : GridRecords) :
    Document.alignedTo fieldNames r.toJson = some (r.fields.map (·.2)) := by
  have hnames : (r.fields.map (·.1)).Nodup := show fieldNames.Nodup by decide
  rw [toJson_eq_written]
  exact Json.alignedTo_written hnames

theorem integers?_ofList (xs : Array Int32) :
    integers? (.ofList .word xs.toList) = some xs := by
  rw [integers?, Json.listOf?_ofList fun n _ => Json.integer?_word n, Option.map_some,
    Array.toArray_toList]

theorem reals?_ofList (xs : Array Float) : reals? (.ofList .real xs.toList) = some xs := by
  rw [reals?, Json.listOf?_ofList fun x _ => Json.real?_real x, Option.map_some,
    Array.toArray_toList]

theorem read?_eq_some : read? v = some r ↔
    ∃ grid names iwel icon scon iseg rseg,
      Document.alignedTo fieldNames v = some [grid, names, iwel, icon, scon, iseg, rseg] ∧
      Document.required GridName.read? grid = some r.grid ∧
      Document.required (Document.listOf? Document.text?) names = some r.wellNames ∧
      Document.required integers? iwel = some r.iwel ∧
      Document.required integers? icon = some r.icon ∧
      Document.optional reals? scon = some r.scon ∧
      Document.optional integers? iseg = some r.iseg ∧
      Document.optional reals? rseg = some r.rseg := by
  constructor
  · intro hread
    unfold read? at hread
    simp only [Option.bind_eq_bind, Option.bind_eq_some_iff] at hread
    obtain ⟨values, hvalues, hread⟩ := hread
    split at hread
    next =>
      simp only [Option.bind_eq_some_iff] at hread
      obtain ⟨_, hgrid, _, hnames, _, hiwel, _, hicon, _, hscon, _, hiseg, _, hrseg, heq⟩ := hread
      cases heq
      exact ⟨_, _, _, _, _, _, _, hvalues, hgrid, hnames, hiwel, hicon, hscon, hiseg, hrseg⟩
    next => cases hread
  · rintro ⟨_, _, _, _, _, _, _, hvalues, hgrid, hnames, hiwel, hicon, hscon, hiseg, hrseg⟩
    simp only [read?, hvalues, hgrid, hnames, hiwel, hicon, hscon, hiseg, hrseg,
      Option.bind_eq_bind, Option.bind_some]
    rfl

theorem read?_toJson (hgrid : ∃ name, r.grid = .ofText name) : read? r.toJson = some r :=
  read?_eq_some.mpr ⟨_, _, _, _, _, _, _, alignedTo_toJson r,
    congrArg some (GridName.ofText_text hgrid), Json.listOf?_ofList fun s _ => Json.text?_str s,
    integers?_ofList r.iwel, integers?_ofList r.icon,
    Json.optional_map fun xs _ => reals?_ofList xs,
    Json.optional_map fun xs _ => integers?_ofList xs,
    Json.optional_map fun xs _ => reals?_ofList xs⟩

/-- The reals of the records of a grid. -/
def reals (r : GridRecords) : List Float :=
  r.scon.elim [] Array.toList ++ r.rseg.elim [] Array.toList

theorem proper_toJson (h : ∀ x ∈ r.reals, P x) : r.toJson.Proper P Q := by
  rw [toJson_eq_written]
  refine Json.proper_written fun f hf value hvalue => ?_
  simp only [fields, List.mem_cons, List.not_mem_nil, or_false] at hf
  obtain rfl | rfl | rfl | rfl | rfl | rfl | rfl := hf
  · cases hvalue
    exact .str _
  · cases hvalue
    exact Json.proper_ofList fun s _ => .str s
  · cases hvalue
    exact Json.proper_ofList fun n _ => Json.proper_word n
  · cases hvalue
    exact Json.proper_ofList fun n _ => Json.proper_word n
  · obtain ⟨xs, hxs, rfl⟩ := Option.map_eq_some_iff.mp hvalue
    refine Json.proper_ofList fun x hx => .real (h x (List.mem_append_left _ ?_))
    rwa [hxs]
  · obtain ⟨xs, -, rfl⟩ := Option.map_eq_some_iff.mp hvalue
    exact Json.proper_ofList fun n _ => Json.proper_word n
  · obtain ⟨xs, hxs, rfl⟩ := Option.map_eq_some_iff.mp hvalue
    refine Json.proper_ofList fun x hx => .real (h x (List.mem_append_right _ ?_))
    rwa [hxs]

theorem named_of_read? (hread : read? v = some r) : ∃ name, r.grid = .ofText name := by
  obtain ⟨_, _, _, _, _, _, _, -, hgrid, -⟩ := read?_eq_some.mp hread
  obtain ⟨_, -, hgrid⟩ := Json.required_eq_some.mp hgrid
  obtain ⟨name, -, hname⟩ := Option.map_eq_some_iff.mp hgrid
  exact ⟨name, hname.symm⟩

theorem isFinite_of_reals? {xs : Array Float} (hv : v.Denoted)
    (h : reals? v = some xs) : ∀ x ∈ xs.toList, x.isFinite = true := by
  obtain ⟨as, has, rfl⟩ := Option.map_eq_some_iff.mp h
  intro x hx
  obtain ⟨w, hw, hread⟩ := hv.item has hx
  exact hw.isFinite hread

theorem isFinite_of_optional {field : Option Json} {record : Option (Array Float)}
    (hfield : ∀ v ∈ field, v.Denoted)
    (h : Document.optional reals? field = some record) :
    ∀ x ∈ record.elim [] Array.toList, x.isFinite = true := by
  cases record with
  | none => exact fun x hx => nomatch hx
  | some xs =>
      obtain ⟨v, rfl, hread⟩ := Json.optional_eq_some h
      exact isFinite_of_reals? (hfield v rfl) hread

theorem isFinite_of_read? (hv : v.Denoted) (hread : read? v = some r) :
    ∀ x ∈ r.reals, x.isFinite = true := by
  obtain ⟨_, _, _, _, _, _, _, hvalues, -, -, -, -, hscon, -, hrseg⟩ := read?_eq_some.mp hread
  intro x hx
  rcases List.mem_append.mp hx with hx | hx
  · refine isFinite_of_optional ?_ hscon x hx
    rintro w rfl
    exact hv.field hvalues (by simp)
  · refine isFinite_of_optional ?_ hrseg x hx
    rintro w rfl
    exact hv.field hvalues (by simp)

end GridRecords

/-! ## Reports -/

namespace Report

variable {r : Report}

/-- A report that can be held: each of its grids is what its name says. -/
structure Held (r : Report) : Prop where
  header : r.header.Held
  named : ∀ g ∈ r.grids, ∃ name, g.grid = .ofText name

/-- The reals of a report. -/
def reals (r : Report) : List Float := r.grids.flatMap GridRecords.reals

/-- The fields of a report, none of which is left out. -/
def fields (r : Report) : List (String × Option Json) :=
  [("header", some r.header.toJson), ("grids", some (.ofList GridRecords.toJson r.grids))]

theorem alignedTo_toJson (r : Report) :
    Document.alignedTo fieldNames r.toJson = some (r.fields.map (·.2)) := by
  have hnames : (r.fields.map (·.1)).Nodup := show fieldNames.Nodup by decide
  exact Json.alignedTo_written hnames

theorem read?_eq_some : read? v = some r ↔
    ∃ header grids, Document.alignedTo fieldNames v = some [header, grids] ∧
      Document.required ReportHeader.read? header = some r.header ∧
      Document.required (Document.listOf? GridRecords.read?) grids = some r.grids := by
  constructor
  · intro hread
    unfold read? at hread
    simp only [Option.bind_eq_bind, Option.bind_eq_some_iff] at hread
    obtain ⟨values, hvalues, hread⟩ := hread
    split at hread
    next =>
      simp only [Option.bind_eq_some_iff] at hread
      obtain ⟨_, hheader, _, hgrids, heq⟩ := hread
      cases heq
      exact ⟨_, _, hvalues, hheader, hgrids⟩
    next => cases hread
  · rintro ⟨_, _, hvalues, hheader, hgrids⟩
    simp only [read?, hvalues, hheader, hgrids, Option.bind_eq_bind, Option.bind_some]
    rfl

theorem read?_toJson (hheld : r.Held) : read? r.toJson = some r :=
  read?_eq_some.mpr ⟨_, _, alignedTo_toJson r, ReportHeader.read?_toJson hheld.header,
    Json.listOf?_ofList fun g hg => GridRecords.read?_toJson (hheld.named g hg)⟩

theorem proper_toJson (hheld : r.Held) (h : ∀ x ∈ r.reals, P x) : r.toJson.Proper P Q := by
  show (Json.obj (Fields.written r.fields)).Proper P Q
  refine Json.proper_written fun f hf value hvalue => ?_
  simp only [fields, List.mem_cons, List.not_mem_nil, or_false] at hf
  obtain rfl | rfl := hf <;> cases hvalue
  · exact ReportHeader.proper_toJson hheld.header
  · refine Json.proper_ofList fun g hg => GridRecords.proper_toJson fun x hx => ?_
    exact h x (List.mem_flatMap.mpr ⟨g, hg, hx⟩)

/-- The text of a report is read as the report where each of its reals is. -/
theorem parse_compact (hheld : r.Held) (h : ∀ x ∈ r.reals, Json.Lossless x) :
    parse r.toJson.compact = .ok r := by
  rw [parse, Json.parse?_compact (proper_toJson hheld h), Option.bind_some, read?_toJson hheld]

theorem held_of_read? (hread : read? v = some r) : r.Held := by
  obtain ⟨_, _, -, hheader, hgrids⟩ := read?_eq_some.mp hread
  obtain ⟨_, -, hheader⟩ := Json.required_eq_some.mp hheader
  obtain ⟨_, -, hgrids⟩ := Json.required_eq_some.mp hgrids
  refine ⟨ReportHeader.held_of_read? hheader, fun g hg => ?_⟩
  obtain ⟨_, -, hitems⟩ := Option.bind_eq_some_iff.mp hgrids
  obtain ⟨_, -, hg⟩ := Json.mem_of_mapM hitems hg
  exact GridRecords.named_of_read? hg

theorem isFinite_of_read? (hv : v.Denoted) (hread : read? v = some r) :
    ∀ x ∈ r.reals, x.isFinite = true := by
  obtain ⟨_, _, hvalues, -, hgrids⟩ := read?_eq_some.mp hread
  obtain ⟨w, rfl, hgrids⟩ := Json.required_eq_some.mp hgrids
  have hw : w.Denoted := hv.field hvalues (by simp)
  intro x hx
  obtain ⟨g, hg, hx⟩ := List.mem_flatMap.mp hx
  obtain ⟨u, hu, hg⟩ := hw.item hgrids hg
  exact GridRecords.isFinite_of_read? hu hg x hx

/-- Writing and reading gives back exactly the reports that can be held. -/
theorem read?_toJson_iff : read? r.toJson = some r ↔ r.Held := ⟨held_of_read?, read?_toJson⟩

/-- What a dump keeps: it is a value that JSON has, which is read as the report, and where the
text of each of its reals is read as that real, its text is read as the report too. -/
structure Survives (r : Report) : Prop where
  proper : r.toJson.Proper (fun x => x.isFinite = true) False
  value : read? r.toJson = some r
  text : (∀ x ∈ r.reals, Json.Lossless x) → parse r.toJson.compact = .ok r

theorem survives_of_held (hheld : r.Held) (hfinite : ∀ x ∈ r.reals, x.isFinite = true) :
    r.Survives where
  proper := proper_toJson hheld hfinite
  value := read?_toJson hheld
  text := parse_compact hheld

theorem survives_of_read? (hv : v.Denoted) (hread : read? v = some r) : r.Survives :=
  survives_of_held (held_of_read? hread) (isFinite_of_read? hv hread)

/-- A report survives being written and read if it can be held and has finite reals only, and
every report that was read, from a value or from a text, is of this kind. -/
theorem survives_dump :
    (∀ r : Report, r.Held → (∀ x ∈ r.reals, x.isFinite = true) → r.Survives) ∧
      (∀ (v : Json) (r : Report), v.Denoted → read? v = some r → r.Survives) ∧
      ∀ (text : String) (r : Report), parse text = .ok r → r.Survives := by
  refine ⟨fun _ => survives_of_held, fun _ _ => survives_of_read?, fun text r hparse => ?_⟩
  unfold parse at hparse
  split at hparse
  next hread =>
    cases hparse
    obtain ⟨v, hv, hread⟩ := Option.bind_eq_some_iff.mp hread
    exact survives_of_read? (Json.denoted_of_parse? hv) hread
  next => cases hparse

/-- A report within a leap second, with records that are absent, empty and neither. -/
def leapSecondReport : Report where
  header := ⟨Int32.minValue, ⟨1483228799, 1500000000⟩, 5, 4, 3, 2, 6, 2, UInt64.size - 1⟩
  grids :=
    [⟨.global, ["P-1", "\"\n"], #[Int32.minValue, 0], #[], some #[0.1, -0.0], some #[], none⟩,
      ⟨.refinement "A", [], #[Int32.maxValue], #[2], none, none, some #[1.5e300]⟩]

/-- A header given by position, and a grid with an integer for a real, a record written as
absent and a field that no grid has. -/
def positionalDump : Json :=
  .arr [.arr [.int 1, .str "2020-01-02T03:04:05.5+01:00", .int 0, .int 0, .int 0, .int 0, .int 0,
      .int 0, .int 0],
    .arr [.obj [("icon", .arr []), ("comment", .unreadable), ("grid", .str "Global"),
      ("well_names", .arr []), ("iwel", .arr [.int (-7)]), ("scon", .arr [.int (-3), .real 0.1]),
      ("rseg", .null)]]]

/-- The report in `positionalDump`. -/
def positionalReport : Report where
  header := ⟨1, ⟨1577930645, 500000000⟩, 0, 0, 0, 0, 0, 0, 0⟩
  grids := [⟨.global, [], #[-7], #[], some #[-3.0, 0.1], none, none⟩]

theorem denoted_positionalDump : positionalDump.Denoted := by
  unfold positionalDump
  repeat' first
    | constructor
    | rw [List.forall_mem_cons]
    | exact List.forall_mem_nil _

theorem survives_dump_leapSecondReport :
    parse leapSecondReport.toJson.compact = .ok leapSecondReport ∧
      read? leapSecondReport.toJson = some leapSecondReport ∧
      read? positionalDump = some positionalReport ∧
      parse positionalReport.toJson.compact = .ok positionalReport := by
  have hheader : leapSecondReport.header.Held := by constructor <;> decide
  have hheld : leapSecondReport.Held := by
    refine ⟨hheader, List.forall_mem_cons.mpr ⟨⟨"Global", rfl⟩, ?_⟩⟩
    exact List.forall_mem_cons.mpr ⟨⟨"A", rfl⟩, List.forall_mem_nil _⟩
  have hfinite : ∀ x ∈ leapSecondReport.reals, x.isFinite = true := by decide +kernel
  have hdump : parse leapSecondReport.toJson.compact = .ok leapSecondReport :=
    (survives_dump.1 _ hheld hfinite).text (by decide +kernel)
  have hread : read? positionalDump = some positionalReport := by decide +kernel
  exact ⟨hdump, (survives_dump.2.2 _ _ hdump).value, hread,
    (survives_dump.2.1 _ _ denoted_positionalDump hread).text (by decide +kernel)⟩

end Report

end Wellbore
