import Wellbore.Proofs.Reconstruction.Consistent

/-!
# Grids that are listed twice

Nothing keeps a report from having several entries for one grid. Each entry that lists the
well is read, and the connections that it gives take the place of the earlier ones; but what
they are attached to is kept beside what was attached before. So the connections of a grid
are those of its last entry, while the numbers that are attached are those of all entries,
each counted from zero (`Keeps`).

The numbers of one entry have no gaps. Whether one of them is past the connections that are
left is therefore a question of lengths only: no earlier entry may be longer than the last.
-/

namespace Wellbore

variable {h : ReportHeader} {catalog : Option GridCatalog} {r : GridRecords}
  {rs : List GridRecords} {s s' : Snapshot} {g : GridName} {name : String} {n : Nat}
  {cs : List Connection} {lists : List (List Connection)}

namespace Attachments

/-- Connections are filed under their numbers. -/
theorem map_connection_of_files {segments : Option SegmentTable}
    {filed : List (GridName × Attachment)}
    (hfiled : List.Forall₂ (Files segments catalog) cs.zipIdx filed) :
    filed.map (fun e => e.2.connection) = List.range cs.length := by
  have hnumbers : List.Forall₂ (fun c e => e = c) (cs.zipIdx.map Prod.snd)
      (filed.map fun e => e.2.connection) := by
    rw [List.forall₂_map_left_iff, List.forall₂_map_right_iff]
    exact hfiled.imp fun _ _ he => (resolve_eq_ok.mp he.2).1
  rw [List.zipIdx_map_snd, ← List.range_eq_range'] at hnumbers
  exact List.forall₂_eq_eq_eq ▸ hnumbers.flip

end Attachments

/-! ## What is kept of a grid -/

namespace Snapshot

/-- What a snapshot has of a grid after some lists of connections: the last of them, and the
numbers of all. -/
structure Keeps (s : Snapshot) (g : GridName) (lists : List (List Connection)) : Prop where
  agree : s.attachments.Agree
  held : s.connections.get? g = lists.getLast?
  listed : (s.attachments.inGrid g).map (·.connection) =
    lists.flatMap fun cs => List.range cs.length

/-- Every number that is attached in a grid, or kept for an owner, stands for a connection. -/
def NoDangling (s : Snapshot) (g : GridName) : Prop :=
  (∀ a ∈ s.attachments.inGrid g, a.connection < (s.connectionsIn g).length) ∧
    ∀ owner, ∀ n ∈ s.attachments.ownedBy owner g, n < (s.connectionsIn g).length

theorem noDangling_iff (hagree : s.attachments.Agree) : s.NoDangling g ↔
    ∀ n ∈ (s.attachments.inGrid g).map (·.connection), n < (s.connectionsIn g).length := by
  rw [NoDangling, List.forall_mem_map]
  refine and_iff_left_of_imp fun hall owner n hn => ?_
  rw [hagree owner g] at hn
  obtain ⟨a, ha, rfl⟩ := List.mem_map.mp hn
  exact hall a (List.mem_filter.mp ha).1

theorem Keeps.noDangling_iff (hk : s.Keeps g lists) :
    s.NoDangling g ↔ ∀ cs ∈ lists, cs.length ≤ (s.connectionsIn g).length := by
  rw [Snapshot.noDangling_iff hk.agree, hk.listed]
  constructor
  · intro hall cs hcs
    by_contra hlong
    exact Nat.lt_irrefl _ (hall _ (List.mem_flatMap.mpr
      ⟨cs, hcs, List.mem_range.mpr (Nat.lt_of_not_le hlong)⟩))
  · intro hall n hn
    obtain ⟨cs, hcs, hn⟩ := List.mem_flatMap.mp hn
    exact Nat.lt_of_lt_of_le (List.mem_range.mp hn) (hall cs hcs)

/-- One entry more takes the place of the others, and its numbers are put behind theirs. -/
theorem Keeps.addGrid_self (hk : s.Keeps g lists) {head : Cell} {as : Attachments}
    (hgrid : ∀ c ∈ cs, c.grid = g)
    (hattach : s.attachments.attach s.segments cs catalog = (.ok (), as)) :
    ({ s.addGrid g head cs with attachments := as } : Snapshot).Keeps g (lists ++ [cs]) := by
  obtain ⟨filed, hfiled, rfl⟩ := Attachments.attach_eq_ok hattach
  have hall := grid_of_files hfiled hgrid
  refine ⟨hk.agree.addAll, ?_, ?_⟩
  · rw [List.getLast?_append, List.getLast?_singleton, Option.some_or]
    exact SortedMap.get?_insert_self
  · show ((s.attachments.addAll filed).inGrid g).map _ = _
    rw [Attachments.inGrid_addAll, List.filter_eq_self.mpr (by simpa using hall),
      List.map_append, hk.listed, List.map_map, List.flatMap_append, List.flatMap_singleton]
    exact congrArg _ (Attachments.map_connection_of_files hfiled)

theorem Keeps.addGrid_of_ne (hk : s.Keeps g lists) {g' : GridName} {head : Cell}
    {as : Attachments} (hne : g' ≠ g) (hgrid : ∀ c ∈ cs, c.grid = g')
    (hattach : s.attachments.attach s.segments cs catalog = (.ok (), as)) :
    ({ s.addGrid g' head cs with attachments := as } : Snapshot).Keeps g lists := by
  obtain ⟨filed, hfiled, rfl⟩ := Attachments.attach_eq_ok hattach
  have hother : (filed.filter fun e => e.1 = g) = [] :=
    List.filter_eq_nil_iff.mpr fun e he => by simp [grid_of_files hfiled hgrid e he, hne]
  refine ⟨hk.agree.addAll, (SortedMap.get?_insert_of_ne hne.symm).trans hk.held, ?_⟩
  show ((s.attachments.addAll filed).inGrid g).map _ = _
  rw [Attachments.inGrid_addAll, hother, List.map_nil, List.append_nil, hk.listed]

end Snapshot

namespace Report

/-- The entries of a grid that list a well. -/
def entriesOf (g : GridName) (name : String) (rs : List GridRecords) : List GridRecords :=
  rs.filter fun r => r.grid = g ∧ (r.findWell? name).isSome

/-- An entry gives the connections of the well that it finds by name. -/
def Gives (h : ReportHeader) (name : String) (segmented : Bool) (r : GridRecords)
    (cs : List Connection) : Prop :=
  ∃ well w, r.findWell? name = some well ∧ WellHeader.decode h r well = .ok w ∧
    Connection.load h r w segmented = .ok cs

theorem keeps_bare {w : WellHeader} {topology : Option (SegmentTable × BranchList)} :
    (bare h w topology).Keeps g [] :=
  ⟨Attachments.agree_empty, rfl, rfl⟩

/-- One entry gives one list more to its own grid, and nothing to another. -/
theorem keeps_of_adds (hk : s.Keeps g lists) (hadds : Adds h catalog r s s') :
    ∃ more, List.Forall₂ (Gives h s.name s.isSegmented) (entriesOf g s.name [r]) more ∧
      s'.Keeps g (lists ++ more) := by
  cases hadds with
  | absent habsent =>
      have hnone : entriesOf g s.name [r] = [] :=
        List.filter_eq_nil_iff.mpr (by simp [habsent])
      exact ⟨[], by rw [hnone]; exact .nil, by rw [List.append_nil]; exact hk⟩
  | @present well w cs as hfound hheader hload hattach =>
      have hgrid : ∀ c ∈ cs, c.grid = r.grid := fun c => Connection.grid_of_mem_load hload
      by_cases hg : r.grid = g
      · subst hg
        have hone : entriesOf r.grid s.name [r] = [r] :=
          List.filter_eq_self.mpr (by simp [hfound])
        refine ⟨[cs], ?_, hk.addGrid_self hgrid hattach⟩
        rw [hone]
        exact .cons ⟨well, w, hfound, hheader, hload⟩ .nil
      · have hnone : entriesOf g s.name [r] = [] :=
          List.filter_eq_nil_iff.mpr (by simp [hg])
        refine ⟨[], by rw [hnone]; exact .nil, ?_⟩
        rw [List.append_nil]
        exact hk.addGrid_of_ne hg hgrid hattach

theorem keeps_of_addGrids (hk : s.Keeps g lists) (hadd : addGrids h catalog rs s = .ok s') :
    ∃ more, List.Forall₂ (Gives h s.name s.isSegmented) (entriesOf g s.name rs) more ∧
      s'.Keeps g (lists ++ more) := by
  induction rs generalizing s lists with
  | nil =>
      rw [addGrids_nil_eq_ok.mp hadd]
      exact ⟨[], .nil, by rw [List.append_nil]; exact hk⟩
  | cons r rest ih =>
      obtain ⟨u, hadds, hrest⟩ := addGrids_cons_eq_ok.mp hadd
      obtain ⟨first, hfirst, hku⟩ := keeps_of_adds hk hadds
      obtain ⟨more, hmore, hks⟩ := ih hku hrest
      have hsame : u.name = s.name ∧ u.isSegmented = s.isSegmented := by
        cases hadds <;> exact ⟨rfl, rfl⟩
      rw [hsame.1, hsame.2] at hmore
      refine ⟨first ++ more, ?_, by rw [← List.append_assoc]; exact hks⟩
      have hentries : entriesOf g s.name (r :: rest) =
          entriesOf g s.name [r] ++ entriesOf g s.name rest :=
        List.filter_append [r] rest
      rw [hentries]
      exact List.rel_append hfirst hmore

/-! ## A snapshot -/

/-- A snapshot keeps of a grid the connections of its last entry and the numbers of all, and
these stand for connections exactly if no entry has more of them than the last. -/
theorem reconstruct_noDangling_iff {report : Report} {reader reader' : RealsReader}
    {options : LoadOptions} {well : Nat}
    (hs : report.reconstruct reader catalog options well = (.ok s, reader')) (g : GridName) :
    ∃ lists, List.Forall₂ (Gives report.header s.name s.isSegmented)
        (entriesOf g s.name report.grids) lists ∧ s.Keeps g lists ∧
      (s.NoDangling g ↔ ∀ cs ∈ lists, cs.length ≤ (s.connectionsIn g).length) := by
  obtain ⟨records, w, topology, -, -, -, hadd⟩ := reconstruct_eq_ok.mp hs
  obtain ⟨lists, hlists, hk⟩ := keeps_of_addGrids keeps_bare hadd
  have hname : s.name = (bare report.header w topology).name := name_of_addGrids hadd
  have hsegmented : s.isSegmented = (bare report.header w topology).isSegmented :=
    addGrids_keeps (f := Snapshot.isSegmented) (fun hadds => by cases hadds <;> rfl) hadd
  rw [← hname, ← hsegmented] at hlists
  exact ⟨lists, hlists, hk, hk.noDangling_iff⟩

/-- A refinement that is listed twice, with two connections and then with one. -/
def listedTwice : Report := ReportPlan.report {
  reportStep := 1
  simTime := ⟨0, 0⟩
  wells := [{ name := "P", connections := [{ i := 1, j := 1, k := 1 }] }]
  refinements := [
    (.refinement "R", [{
      name := "P", connections := [{ i := 1, j := 1, k := 1 }, { i := 1, j := 1, k := 2 }] }]),
    (.refinement "R", [{ name := "P", connections := [{ i := 2, j := 1, k := 1 }] }])] }

theorem reconstruct_noDangling_iff_listedTwice : ∃ reader s reader',
    listedTwice.reconstruct reader none {} 0 = (.ok s, reader') ∧
    ∃ lists, List.Forall₂ (Gives listedTwice.header s.name s.isSegmented)
        (entriesOf (.refinement "R") s.name listedTwice.grids) lists ∧
      s.Keeps (.refinement "R") lists ∧ (s.NoDangling (.refinement "R") ↔
        ∀ cs ∈ lists, cs.length ≤ (s.connectionsIn (.refinement "R")).length) := by
  let reader := listedTwice.realsReader (listedTwice.grids.headD default)
  have hout : (listedTwice.reconstruct reader none {} 0).1.toOption.isSome = true := by
    decide +kernel
  rcases hs : listedTwice.reconstruct reader none {} 0 with ⟨e | s, reader'⟩
  · rw [hs] at hout
    cases hout
  · exact ⟨reader, s, reader', hs, reconstruct_noDangling_iff hs _⟩

/-- The second connection is still attached, to a grid that has only one. -/
theorem reconstruct_listedTwice_dangling : ∃ reader s reader',
    listedTwice.reconstruct reader none {} 0 = (.ok s, reader') ∧
    (s.connectionsIn (.refinement "R")).length = 1 ∧
    (s.attachments.inGrid (.refinement "R")).map (·.connection) = [0, 1, 0] ∧
    ¬ s.NoDangling (.refinement "R") := by
  let reader := listedTwice.realsReader (listedTwice.grids.headD default)
  have hout : ((listedTwice.reconstruct reader none {} 0).1.toOption.map fun s =>
      ((s.connectionsIn (.refinement "R")).length,
        (s.attachments.inGrid (.refinement "R")).map (·.connection))) =
          some (1, [0, 1, 0]) := by decide +kernel
  rcases hs : listedTwice.reconstruct reader none {} 0 with ⟨e | s, reader'⟩
  · rw [hs] at hout
    cases hout
  · rw [hs] at hout
    simp only [Except.toOption, Option.map_some, Option.some.injEq, Prod.mk.injEq] at hout
    obtain ⟨hlength, hlisted⟩ := hout
    refine ⟨reader, s, reader', hs, hlength, hlisted, fun hno => ?_⟩
    have hone : 1 ∈ (s.attachments.inGrid (.refinement "R")).map (·.connection) := by
      rw [hlisted]
      decide
    obtain ⟨a, ha, hnumber⟩ := List.mem_map.mp hone
    have hlt := hno.1 a ha
    rw [hnumber, hlength] at hlt
    exact Nat.lt_irrefl 1 hlt

end Report

end Wellbore
