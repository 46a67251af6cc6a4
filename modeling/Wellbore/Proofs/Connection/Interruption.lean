import Wellbore.Proofs.Connection.Attachments
import Wellbore.Proofs.Grid.Catalog

/-!
# Attaching that is cut short

Attaching goes through the connections once and files each as soon as it is resolved, so when
one of them cannot be resolved the ones before it are filed already. Nothing of the rest is: to
attach a list is to attach its front, and then what is behind it unless the front has failed
(`attachFrom_append`). So a failing run and the run over the connections before the failure
leave one and the same state.

Which connections can be resolved is a question about the connection, the segments and the
grids, and not about what has been filed.
-/

namespace Wellbore

namespace Attachments

variable {as as' : Attachments} {segments : Option SegmentTable}
  {catalog : Option GridCatalog} {number n : Nat} {c : Connection}
  {cs done rest : List Connection} {e : TopologyError}

/-- If the well is segmented, the segment that the connection names is there. -/
def Owned (segments : Option SegmentTable) (c : Connection) : Prop :=
  ∀ t, segments = some t → ∃ s ∈ t.rows, s.id = c.segmentId.getD 0

/-- If the grids are known, the one that the connection names is among them and has the cell. -/
def Placed (catalog : Option GridCatalog) (c : Connection) : Prop :=
  ∀ grids, catalog = some grids →
    ∃ g, grids.find? c.grid = some g ∧ g.dims.contains c.cell = true

structure Resolvable (segments : Option SegmentTable) (catalog : Option GridCatalog)
    (c : Connection) : Prop where
  owned : Owned segments c
  placed : Placed catalog c

/-- Why the connection with the number `n` cannot be resolved. The segment is asked for before
the grid, and the grid before the cell. -/
inductive Unresolved (segments : Option SegmentTable) (catalog : Option GridCatalog) (n : Nat)
    (c : Connection) : TopologyError → Prop where
  | segment {t : SegmentTable} (ht : segments = some t)
      (missing : ∀ s ∈ t.rows, s.id ≠ c.segmentId.getD 0) :
      Unresolved segments catalog n c
        (.unknownConnectionSegment n c.grid (c.segmentId.getD 0))
  | grid {grids : GridCatalog} (owned : Owned segments c) (hgrids : catalog = some grids)
      (missing : ∀ g ∈ grids.grids, g.name ≠ c.grid) :
      Unresolved segments catalog n c (.cell (.unknownGrid c.grid))
  | cell {grids : GridCatalog} {g : Grid} (owned : Owned segments c)
      (hgrids : catalog = some grids) (found : grids.find? c.grid = some g)
      (outside : g.dims.contains c.cell = false) :
      Unresolved segments catalog n c
        (.cell (.cellOutOfRange c.grid c.cell.i c.cell.j c.cell.k))

/-! ## Resolving one connection -/

theorem ownerOf_cases (segments : Option SegmentTable) (n : Nat) (c : Connection) :
    (Owned segments c ∧ ∃ owner, ownerOf segments n c = .ok owner) ∨
    ∃ t, segments = some t ∧ (∀ s ∈ t.rows, s.id ≠ c.segmentId.getD 0) ∧
      ownerOf segments n c = .error (.unknownConnectionSegment n c.grid (c.segmentId.getD 0)) := by
  cases segments with
  | none => exact .inl ⟨nofun, .mainBore, rfl⟩
  | some t =>
      cases hslot : t.slotOf? (c.segmentId.getD 0) with
      | some slot =>
          obtain ⟨s, hs, hid⟩ := SegmentTable.slotOf?_eq_some.mp hslot
          refine .inl ⟨fun t' ht' => ?_, .segment slot, by simp only [ownerOf, hslot]⟩
          rw [← Option.some.inj ht']
          exact ⟨s, SegmentTable.mem_rows.mpr ⟨slot, hs⟩, hid⟩
      | none =>
          refine .inr ⟨t, rfl, fun s hs hid => ?_, by simp only [ownerOf, hslot]⟩
          have hsome := SegmentTable.slotOf?_isSome.mpr ⟨s, hs, hid⟩
          rw [hslot] at hsome
          cases hsome

theorem cellOf_cases (catalog : Option GridCatalog) (c : Connection) :
    (Placed catalog c ∧ ∃ cell, cellOf catalog c = .ok cell) ∨
    ∃ grids, catalog = some grids ∧
      ((∀ g ∈ grids.grids, g.name ≠ c.grid) ∧
          cellOf catalog c = .error (.cell (.unknownGrid c.grid)) ∨
        ∃ g, grids.find? c.grid = some g ∧ g.dims.contains c.cell = false ∧
          cellOf catalog c =
            .error (.cell (.cellOutOfRange c.grid c.cell.i c.cell.j c.cell.k))) := by
  cases catalog with
  | none => exact .inl ⟨nofun, _, rfl⟩
  | some grids =>
      cases hfind : grids.find? c.grid with
      | none =>
          refine .inr ⟨grids, rfl, .inl ⟨fun g hg hname => ?_, ?_⟩⟩
          · exact List.find?_eq_none.mp hfind g hg (decide_eq_true hname)
          · simp only [cellOf, GridCatalog.indexOf, hfind]
      | some g =>
          cases hin : g.dims.contains c.cell with
          | true =>
              obtain ⟨n, hn⟩ : ∃ n, g.dims.indexOf? c.cell = some n := ⟨_, if_pos hin⟩
              refine .inl ⟨fun grids' h => ?_, (some n, grids.activeNumber? c.grid n), ?_⟩
              · rw [← Option.some.inj h]
                exact ⟨g, hfind, hin⟩
              · simp only [cellOf, GridCatalog.indexOf, hfind, hn]
          | false =>
              refine .inr ⟨grids, rfl, .inr ⟨g, hfind, hin, ?_⟩⟩
              simp only [cellOf, GridCatalog.indexOf, hfind, GridDims.indexOf?, hin,
                Bool.false_eq_true, if_false]

theorem Unresolved.not_resolvable (h : Unresolved segments catalog n c e) :
    ¬ Resolvable segments catalog c := by
  rintro ⟨howned, hplaced⟩
  cases h with
  | segment ht missing =>
      obtain ⟨s, hs, hid⟩ := howned _ ht
      exact missing s hs hid
  | grid _ hgrids missing =>
      obtain ⟨g, hfind, -⟩ := hplaced _ hgrids
      obtain ⟨hmem, hname⟩ := GridCatalog.mem_of_find? hfind
      exact missing g hmem hname
  | cell _ hgrids found outside =>
      obtain ⟨g, hfind, hin⟩ := hplaced _ hgrids
      rw [found, Option.some.injEq] at hfind
      rw [← hfind, outside] at hin
      cases hin

/-- All that resolving a connection can do. -/
theorem resolve_cases (segments : Option SegmentTable) (catalog : Option GridCatalog) (n : Nat)
    (c : Connection) :
    (Resolvable segments catalog c ∧ ∃ a, resolve segments catalog n c = .ok a) ∨
    ∃ e, Unresolved segments catalog n c e ∧ resolve segments catalog n c = .error e := by
  rcases ownerOf_cases segments n c with ⟨howned, owner, hok⟩ | ⟨t, ht, hmissing, herr⟩
  · rcases cellOf_cases catalog c with
      ⟨hplaced, cell, hcell⟩ | ⟨grids, hgrids, ⟨hmissing, herr⟩ | ⟨g, hfind, hout, herr⟩⟩
    · exact .inl ⟨⟨howned, hplaced⟩, ⟨n, owner, cell.1, cell.2⟩,
        resolve_eq_ok.mpr ⟨rfl, hok, hcell⟩⟩
    · refine .inr ⟨_, .grid howned hgrids hmissing, ?_⟩
      rw [resolve, hok, herr]
      rfl
    · refine .inr ⟨_, .cell howned hgrids hfind hout, ?_⟩
      rw [resolve, hok, herr]
      rfl
  · refine .inr ⟨_, .segment ht hmissing, ?_⟩
    rw [resolve, herr]
    rfl

theorem isOk_resolve :
    (resolve segments catalog n c).isOk = true ↔ Resolvable segments catalog c := by
  rcases resolve_cases segments catalog n c with ⟨hyes, a, hok⟩ | ⟨e, hwhy, herr⟩
  · rw [hok]
    exact ⟨fun _ => hyes, fun _ => rfl⟩
  · rw [herr]
    exact ⟨fun h => Bool.noConfusion h, fun h => absurd h hwhy.not_resolvable⟩

instance : Decidable (Resolvable segments catalog c) :=
  decidable_of_iff _ (isOk_resolve (n := 0))

/-! ## Attaching a list and its front -/

/-- What is behind the front is attached if the front has not failed. -/
theorem attachFrom_append (segments : Option SegmentTable) (catalog : Option GridCatalog)
    (number : Nat) (cs cs' : List Connection) (as : Attachments) :
    attachFrom segments catalog number (cs ++ cs') as =
      match attachFrom segments catalog number cs as with
      | (.ok (), as') => attachFrom segments catalog (number + cs.length) cs' as'
      | (.error e, as') => (.error e, as') := by
  induction cs generalizing number as with
  | nil => rfl
  | cons c cs ih =>
      rw [List.cons_append, attachFrom, attachFrom]
      cases resolve segments catalog number c with
      | error e => rfl
      | ok a =>
          dsimp only
          rw [ih, List.length_cons, Nat.add_assoc, Nat.add_comm 1]

theorem attachFrom_of_resolvable (number : Nat) (as : Attachments)
    (h : ∀ c ∈ cs, Resolvable segments catalog c) :
    ∃ as', attachFrom segments catalog number cs as = (.ok (), as') := by
  obtain ⟨done, rest, filed, hcs, -, -, ⟨-, hok⟩ | ⟨c, rest', e, hrest, herr, -⟩⟩ :=
    attachFrom_cases segments catalog number cs as
  · exact ⟨_, Prod.ext hok rfl⟩
  · have hmem : c ∈ cs := by
      rw [hcs, hrest]
      exact List.mem_append_right _ List.mem_cons_self
    have hisOk := (isOk_resolve (n := number + done.length)).mpr (h c hmem)
    rw [herr] at hisOk
    cases hisOk

/-- At a connection that cannot be resolved attaching ends with what the front left. -/
theorem attachFrom_of_unresolved (hcs : cs = done ++ c :: rest)
    (hdone : attachFrom segments catalog number done as = (.ok (), as'))
    (h : resolve segments catalog (number + done.length) c = .error e) :
    attachFrom segments catalog number cs as = (.error e, as') := by
  rw [hcs, attachFrom_append, hdone]
  dsimp only
  rw [attachFrom, h]

/-! ## All of it or a front -/

/-- Attaching connections that can all be resolved appends an attachment for each. Else it
answers with what is wrong with the first that cannot, and leaves behind what attaching the
connections before that one leaves behind, to which the same applies. -/
theorem attach_until_unresolved (as : Attachments) (segments : Option SegmentTable)
    (cs : List Connection) (catalog : Option GridCatalog) :
    ((∀ c ∈ cs, Resolvable segments catalog c) →
      ∃ as', as.attach segments cs catalog = (.ok (), as') ∧
        Appends segments catalog cs as as') ∧
    ∀ n c, cs[n]? = some c → ¬ Resolvable segments catalog c →
      (∀ c' ∈ cs.take n, Resolvable segments catalog c') →
      ∃ e as', Unresolved segments catalog n c e ∧
        as.attach segments cs catalog = (.error e, as') ∧
        as.attach segments (cs.take n) catalog = (.ok (), as') ∧
        Appends segments catalog (cs.take n) as as' := by
  refine ⟨fun hall => ?_, fun n c hc hno hbefore => ?_⟩
  · obtain ⟨as', hok⟩ := attachFrom_of_resolvable 0 as hall
    exact ⟨as', hok, appends_of_attach hok⟩
  · obtain ⟨as', hok⟩ := attachFrom_of_resolvable 0 as hbefore
    obtain ⟨hlt, hget⟩ := List.getElem?_eq_some_iff.mp hc
    have hcs : cs = cs.take n ++ c :: cs.drop (n + 1) := by
      rw [← hget, ← List.drop_eq_getElem_cons hlt, List.take_append_drop]
    have hlength : 0 + (cs.take n).length = n := by
      rw [Nat.zero_add, List.length_take, Nat.min_eq_left (Nat.le_of_lt hlt)]
    rcases resolve_cases segments catalog n c with ⟨hyes, -⟩ | ⟨e, hwhy, herr⟩
    · exact absurd hyes hno
    · rw [← hlength] at herr
      exact ⟨e, as', hwhy, attachFrom_of_unresolved hcs hok herr, hok, appends_of_attach hok⟩

/-- The global grid and a refinement of one cell. -/
def pinhole : GridCatalog :=
  ⟨[⟨.global, .full (.ofExtents 4 3 2), none⟩,
    ⟨.refinement "LGR1", .full (.ofExtents 1 1 1), none⟩]⟩

/-- The third connection is outside its own grid, although the global grid has such a cell; the
last names a segment that is not there. -/
def throughPinhole : List Connection :=
  [⟨.global, ⟨2, 1, 0⟩, true, none, some 2, none⟩,
    ⟨.refinement "LGR1", ⟨0, 0, 0⟩, true, none, some 1, none⟩,
    ⟨.refinement "LGR1", ⟨1, 0, 0⟩, true, none, some 1, none⟩,
    ⟨.global, ⟨3, 2, 1⟩, false, none, some 9, none⟩]

theorem attach_until_unresolved_throughPinhole :
    let t := SegmentTable.ofRows [⟨1, 0, 1, {}⟩, ⟨2, 1, 1, {}⟩]
    let as := ({} : Attachments).add .global ⟨0, .segment 0, none, none⟩
    ∃ as', as.attach (some t) throughPinhole (some pinhole) =
        (.error (.cell (.cellOutOfRange (.refinement "LGR1") 1 0 0)), as') ∧
      as.attach (some t) (throughPinhole.take 2) (some pinhole) = (.ok (), as') ∧
      Appends (some t) (some pinhole) (throughPinhole.take 2) as as' := by
  intro t as
  obtain ⟨-, hcut⟩ := attach_until_unresolved as (some t) throughPinhole (some pinhole)
  obtain ⟨e, as', -, herr, hfront, happends⟩ := hcut 2 _ rfl (by decide +kernel) (by decide +kernel)
  have hcause : (as.attach (some t) throughPinhole (some pinhole)).1 =
      .error (.cell (.cellOutOfRange (.refinement "LGR1") 1 0 0)) := by decide +kernel
  rw [herr, Except.error.injEq] at hcause
  rw [hcause] at herr
  exact ⟨as', herr, hfront, happends⟩

end Attachments

end Wellbore
