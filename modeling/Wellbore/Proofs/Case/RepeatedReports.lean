import Wellbore.Case.Config
import Wellbore.Proofs.Restart.Rows
import Mathlib.Data.List.Basic

/-!
# Reports that are listed twice

A configuration is checked as it was written, and only then are its relative paths taken to be
seen from the directory of its file. On the way a path loses its leading dot, which is a part
only as long as nothing stands before it, and gains the parts of the directory. So two paths
that were told apart may be one path after: if nothing but the dot made the difference, or if
one of them spells out where the other one leads.

`Path.Meet` says when, in terms of the written paths, and it takes a directory: seen from
nowhere, paths stay as they are.
-/

namespace Wellbore

namespace Path

variable {dir path p q : String}

/-- The names of a path, without a leading dot. -/
def names (path : String) : List (List Char) := (pieces path).filter fun piece => !isVoid piece

/-- The leading dot of a relative path, if it has one. -/
def lead (path : String) : List (List Char) :=
  if !isAbsolute path && (pieces path).head? = some ['.'] then [['.']] else []

theorem parts_eq (path : String) : parts path = lead path ++ names path := rfl

theorem same_iff : same p q = true ↔ isAbsolute p = isAbsolute q ∧ parts p = parts q := by
  rw [same, Bool.and_eq_true, decide_eq_true_iff, decide_eq_true_iff]

theorem same_comm (p q : String) : same p q = same q p := by
  rw [Bool.eq_iff_iff, same_iff, same_iff, eq_comm, eq_comm (a := parts p)]

/-! ## Joining -/

theorem join_of_isAbsolute (hp : isAbsolute path = true) : join dir path = path := by
  rw [join, if_pos hp]

theorem join_empty (path : String) : join "" path = path := by
  rw [join, String.toList_empty, List.getLast?_nil]
  exact ite_self _

/-- The pieces of a directory stay in front of those of the path, up to the empty one after a
slash at the end. -/
theorem pieces_join (hdir : dir ≠ "") (hp : isAbsolute path = false) :
    ∃ front back, front ≠ [] ∧ pieces dir = front ++ back ∧ (∀ piece ∈ back, piece = []) ∧
      pieces (join dir path) = front ++ pieces path := by
  unfold join
  rw [if_neg (Bool.eq_false_iff.mp hp)]
  split
  next hnone =>
    exact absurd (String.toList_eq_nil_iff.mp (List.getLast?_eq_none_iff.mp hnone)) hdir
  next hslash =>
    obtain ⟨front, hfront⟩ := List.getLast?_eq_some_iff.mp hslash
    refine ⟨front.splitOn '/', [[]], List.splitOn_ne_nil _ _, ?_, by simp, ?_⟩
    · rw [pieces, hfront, List.splitOn_append_cons_self, List.splitOn_nil]
    · rw [pieces, String.toList_append, hfront, List.append_assoc, List.singleton_append,
        List.splitOn_append_cons_self, pieces]
  next =>
    refine ⟨pieces dir, [], List.splitOn_ne_nil _ _, (List.append_nil _).symm, by simp, ?_⟩
    have hslash : (dir ++ "/" ++ path).toList = dir.toList ++ '/' :: path.toList := by
      rw [String.toList_append, String.toList_append, List.append_assoc]
      rfl
    rw [pieces, hslash, List.splitOn_append_cons_self, pieces, pieces]

theorem isAbsolute_join (hdir : dir ≠ "") (hp : isAbsolute path = false) :
    isAbsolute (join dir path) = isAbsolute dir := by
  have hne : dir.toList ≠ [] := mt String.toList_eq_nil_iff.mp hdir
  have hstarts : ∃ more, (join dir path).toList = dir.toList ++ more := by
    unfold join
    rw [if_neg (Bool.eq_false_iff.mp hp)]
    split
    next hnone => exact absurd (List.getLast?_eq_none_iff.mp hnone) hne
    next => exact ⟨_, String.toList_append⟩
    next =>
      refine ⟨"/".toList ++ path.toList, ?_⟩
      simp only [String.toList_append, List.append_assoc]
  obtain ⟨more, hmore⟩ := hstarts
  rw [isAbsolute, isAbsolute, hmore, List.head?_append_of_ne_nil _ hne]

/-- Seen from a directory, a relative path has the parts of the directory and its own names. -/
theorem parts_join (hdir : dir ≠ "") (hp : isAbsolute path = false) :
    parts (join dir path) = parts dir ++ names path := by
  obtain ⟨front, back, hne, hfront, hback, hjoin⟩ := pieces_join hdir hp
  have hvoid : back.filter (fun piece => !isVoid piece) = [] :=
    List.filter_eq_nil_iff.mpr fun piece hpiece => by rw [hback piece hpiece]; decide
  have hlead : lead (join dir path) = lead dir := by
    rw [lead, lead, isAbsolute_join hdir hp, hjoin, hfront, List.head?_append_of_ne_nil _ hne,
      List.head?_append_of_ne_nil _ hne]
  have hnames : names (join dir path) = names dir ++ names path := by
    rw [names, hjoin, List.filter_append, names, hfront, List.filter_append, hvoid,
      List.append_nil, names]
  rw [parts_eq, hlead, hnames, ← List.append_assoc, ← parts_eq]

/-! ## Paths that meet -/

/-- Whether two paths that are not the same are the same when they are seen from a directory:
relative ones if only a leading dot made the difference, a relative and an absolute one if the
second spells out where the first one leads. -/
def Meet (dir p q : String) : Prop :=
  match isAbsolute p, isAbsolute q with
  | false, false => dir ≠ "" ∧ lead p ≠ lead q ∧ names p = names q
  | false, true => isAbsolute dir = true ∧ parts dir ++ names p = parts q
  | true, false => isAbsolute dir = true ∧ parts dir ++ names q = parts p
  | true, true => False

theorem same_join_of_relative (hne : same p q = false) (hp : isAbsolute p = false)
    (hq : isAbsolute q = false) : same (join dir p) (join dir q) = true ↔
      dir ≠ "" ∧ lead p ≠ lead q ∧ names p = names q := by
  by_cases hdir : dir = ""
  · rw [hdir, join_empty, join_empty, hne]
    exact iff_of_false Bool.false_ne_true fun h => h.1 rfl
  · rw [same_iff, isAbsolute_join hdir hp, isAbsolute_join hdir hq, parts_join hdir hp,
      parts_join hdir hq, List.append_cancel_left_eq, and_iff_right rfl, and_iff_right hdir,
      iff_and_self]
    intro hnames hlead
    rw [same_iff.mpr ⟨hp.trans hq.symm, by rw [parts_eq, parts_eq, hlead, hnames]⟩] at hne
    cases hne

theorem same_join_of_isAbsolute (hp : isAbsolute p = false) (hq : isAbsolute q = true) :
    same (join dir p) q = true ↔ isAbsolute dir = true ∧ parts dir ++ names p = parts q := by
  rw [same_iff, hq]
  by_cases hdir : dir = ""
  · have hroot : isAbsolute "" = false := by decide
    rw [hdir, join_empty, hp, hroot]
    exact iff_of_false (fun h => Bool.false_ne_true h.1) fun h => Bool.false_ne_true h.1
  · rw [isAbsolute_join hdir hp, parts_join hdir hp]

theorem same_join_iff (hne : same p q = false) :
    same (join dir p) (join dir q) = true ↔ Meet dir p q := by
  unfold Meet
  cases hp : isAbsolute p <;> cases hq : isAbsolute q
  · exact same_join_of_relative hne hp hq
  · rw [join_of_isAbsolute hq]
    exact same_join_of_isAbsolute hp hq
  · rw [join_of_isAbsolute hp, same_comm]
    exact same_join_of_isAbsolute hq hp
  · rw [join_of_isAbsolute hp, join_of_isAbsolute hq, hne]
    exact iff_of_false Bool.false_ne_true id

end Path

/-! ## Lists of reports -/

namespace CaseConfig

variable {c config : CaseConfig} {dir path : String} {view : FileView}

/-- No report is listed twice. -/
def Distinct (c : CaseConfig) : Prop := c.reports.Pairwise fun p q => Path.same p q = false

instance (c : CaseConfig) : Decidable c.Distinct :=
  inferInstanceAs (Decidable (c.reports.Pairwise fun p q => Path.same p q = false))

theorem repeated?_eq_none {seen paths : List String} : repeated? seen paths = none ↔
    (∀ p ∈ seen, ∀ q ∈ paths, Path.same p q = false) ∧
      paths.Pairwise fun p q => Path.same p q = false := by
  induction paths generalizing seen with
  | nil => simp [repeated?]
  | cons path rest ih =>
      have hseen : seen.any (Path.same path) = false ↔ ∀ p ∈ seen, Path.same p path = false := by
        simp only [List.any_eq_false, Bool.not_eq_true, Path.same_comm path]
      rw [repeated?, List.pairwise_cons]
      simp only [List.forall_mem_cons, forall_and, ← hseen]
      cases seen.any (Path.same path) with
      | true => simp
      | false => simp [ih, and_left_comm, and_assoc]

theorem distinct_of_validate (h : c.validate = .ok ()) : c.Distinct := by
  have hfault : c.fault? = none := by
    unfold validate at h
    split at h
    next => cases h
    next hnone => exact hnone
  unfold fault? at hfault
  split at hfault
  next => cases hfault
  next =>
    split at hfault
    next => cases hfault
    next => exact (repeated?_eq_none.mp (Option.map_eq_none_iff.mp hfault)).2

/-- The reports of a configuration that was accepted stay apart exactly if no two meet. -/
theorem distinct_rebase_iff (h : c.validate = .ok ()) :
    (c.rebase dir).Distinct ↔ c.reports.Pairwise fun p q => ¬ Path.Meet dir p q := by
  have hapart : c.reports.Pairwise fun p q => Path.same p q = false := distinct_of_validate h
  rw [Distinct, rebase, List.pairwise_map]
  constructor
  · intro hdistinct
    refine (hapart.and hdistinct).imp fun hpq hmeet => ?_
    rw [(Path.same_join_iff hpq.1).mpr hmeet] at hpq
    cases hpq.2
  · intro hmeet
    exact (hapart.and hmeet).imp fun hpq =>
      Bool.eq_false_iff.mpr fun hsame => hpq.2 ((Path.same_join_iff hpq.1).mp hsame)

theorem rebase_empty (c : CaseConfig) : c.rebase "" = c := by
  have hjoin : Path.join "" = id := funext Path.join_empty
  rw [rebase, hjoin, List.map_id, Option.map_id, id]

/-! ## Loading -/

theorem load_eq_ok : load view path = .ok config ↔ ∃ text written,
    readText view .case path = .ok text ∧ parseFile .case path read? read? text = .ok written ∧
      written.validate = .ok () ∧ config = written.rebase ((Path.parent? path).getD "") := by
  unfold load
  simp only [bind_eq_ok]
  refine exists_congr fun text => ?_
  cases Path.parent? path with
  | none =>
      simp only [pure_eq_ok, Option.getD_none, rebase_empty]
      grind
  | some dir =>
      simp only [pure_eq_ok, Option.getD_some]
      grind

/-- A loaded configuration lists no report twice exactly if no two paths that its file lists,
which passed as different, meet when they are seen from its directory. -/
theorem distinct_of_load_iff (h : load view path = .ok config) : ∃ text written,
    readText view .case path = .ok text ∧ parseFile .case path read? read? text = .ok written ∧
      written.Distinct ∧ config = written.rebase ((Path.parent? path).getD "") ∧
      (config.Distinct ↔
        written.reports.Pairwise fun p q => ¬ Path.Meet ((Path.parent? path).getD "") p q) := by
  obtain ⟨text, written, htext, hparse, hvalid, hconfig⟩ := load_eq_ok.mp h
  refine ⟨text, written, htext, hparse, distinct_of_validate hvalid, hconfig, ?_⟩
  rw [hconfig]
  exact distinct_rebase_iff hvalid

/-- A case that spells one report in two ways. -/
def spelledTwice : FileTree :=
  .ofList [("d/case.json", "\x7b\"name\":\"x\",\"reports\":[\"r.json\",\"./r.json\"]\x7d")]

theorem distinct_of_load_iff_spelledTwice : ∃ config,
    load spelledTwice.view "d/case.json" = .ok config ∧ ∃ text written,
      readText spelledTwice.view .case "d/case.json" = .ok text ∧
      parseFile .case "d/case.json" read? read? text = .ok written ∧ written.Distinct ∧
      config = written.rebase ((Path.parent? "d/case.json").getD "") ∧
      (config.Distinct ↔ written.reports.Pairwise fun p q =>
        ¬ Path.Meet ((Path.parent? "d/case.json").getD "") p q) := by
  have hload : load spelledTwice.view "d/case.json" =
      .ok ⟨"x", ["d/r.json", "d/./r.json"], none, {}⟩ := by decide +kernel
  exact ⟨_, hload, distinct_of_load_iff hload⟩

/-- What was loaded lists the report twice. -/
theorem load_spelledTwice : ∃ config, load spelledTwice.view "d/case.json" = .ok config ∧
    config.reports = ["d/r.json", "d/./r.json"] ∧ ¬ config.Distinct := by
  have hload : load spelledTwice.view "d/case.json" =
      .ok ⟨"x", ["d/r.json", "d/./r.json"], none, {}⟩ := by decide +kernel
  exact ⟨_, hload, rfl, by decide +kernel⟩

end CaseConfig

end Wellbore
