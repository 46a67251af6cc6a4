import Wellbore.Restart.Plan
import Wellbore.Proofs.Restart.Rows
import Mathlib.Data.List.Infix

/-!
# Records as rows

A record that is written row by row is the list of its rows, one after the other,
and a block is a list of rows filled up with blank ones. So a row is found at a
multiple of its width, a block at a multiple of its size, and writing a row
changes that row and nothing else.
-/

namespace Wellbore

section
variable {α β : Type} {blank : α} {width count start : Nat} {values : List (Nat × α)}
  {rows : List (List (Nat × α))}

/-- A row after values have been entered in their columns. -/
def entered (row : List α) (values : List (Nat × α)) : List α :=
  values.foldl (fun row v => row.set v.1 v.2) row

theorem entered_nil (row : List α) : entered row [] = row := rfl

/-- A row that says nothing but some values. -/
def rowWith (blank : α) (width : Nat) (values : List (Nat × α)) : List α :=
  entered (List.replicate width blank) values

/-- A block of `count` rows, the first of them with the given values. -/
def blockOf (blank : α) (width count : Nat) (rows : List (List (Nat × α))) : List α :=
  (rows ++ List.replicate (count - rows.length) []).flatMap (rowWith blank width)

/-! ## Lengths -/

theorem length_entered (row : List α) (values : List (Nat × α)) :
    (entered row values).length = row.length := by
  induction values generalizing row with
  | nil => rfl
  | cons v values ih =>
      show (entered (row.set v.1 v.2) values).length = row.length
      rw [ih, List.length_set]

theorem length_rowWith : (rowWith blank width values).length = width := by
  rw [rowWith, length_entered, List.length_replicate]

theorem length_flatMap_of_length {l : List β} {f : β → List α} {k : Nat}
    (hlen : ∀ b ∈ l, (f b).length = k) : (l.flatMap f).length = l.length * k := by
  induction l with
  | nil => simp
  | cons b l ih =>
      rw [List.flatMap_cons, List.length_append, hlen b (List.mem_cons_self ..),
        ih fun b hb => hlen b (List.mem_cons_of_mem _ hb), List.length_cons, Nat.succ_mul,
        Nat.add_comm]

theorem length_blockOf (hrows : rows.length ≤ count) :
    (blockOf blank width count rows).length = count * width := by
  rw [blockOf, length_flatMap_of_length fun _ _ => length_rowWith, List.length_append,
    List.length_replicate, Nat.add_sub_cancel' hrows]

/-- A block begins with its rows; the rest is blank. -/
theorem blockOf_eq : blockOf blank width count rows =
    rows.flatMap (rowWith blank width) ++
      List.replicate ((count - rows.length) * width) blank := by
  have hblank : ∀ n, (List.replicate n []).flatMap (rowWith blank width) =
      List.replicate (n * width) blank := by
    intro n
    induction n with
    | zero => simp
    | succ n ih =>
        rw [List.replicate_succ, List.flatMap_cons, ih, Nat.succ_mul, Nat.add_comm (n * width),
          ← List.replicate_append_replicate]
        rfl
  rw [blockOf, List.flatMap_append, hblank]

/-! ## Columns -/

/-- Values that have different columns of a row. -/
structure Fits (width : Nat) (values : List (Nat × α)) : Prop where
  nodup : (values.map Prod.fst).Nodup
  lt : ∀ v ∈ values, v.1 < width

theorem Fits.of_columns (columns : List Nat) (heq : values.map Prod.fst = columns)
    (hnodup : columns.Nodup) (hlt : ∀ column ∈ columns, column < width) : Fits width values where
  nodup := heq ▸ hnodup
  lt v hv := hlt v.1 (heq ▸ List.mem_map_of_mem hv)

theorem getElem?_entered_of_not_mem {row : List α} {column : Nat}
    (hcolumn : column ∉ values.map Prod.fst) : (entered row values)[column]? = row[column]? := by
  induction values generalizing row with
  | nil => rfl
  | cons v values ih =>
      rw [List.map_cons, List.mem_cons, not_or] at hcolumn
      show (entered (row.set v.1 v.2) values)[column]? = _
      rw [ih hcolumn.2, List.getElem?_set_ne (Ne.symm hcolumn.1)]

/-- What has been entered in a column stands there. -/
theorem getElem?_entered {row : List α} {v : Nat × α} (hfits : Fits row.length values)
    (hv : v ∈ values) : (entered row values)[v.1]? = some v.2 := by
  induction values generalizing row with
  | nil => cases hv
  | cons u values ih =>
      obtain ⟨hnodup, hlt⟩ := hfits
      rw [List.map_cons, List.nodup_cons] at hnodup
      show (entered (row.set u.1 u.2) values)[v.1]? = _
      rcases List.mem_cons.mp hv with rfl | hv
      · rw [getElem?_entered_of_not_mem hnodup.1,
          List.getElem?_set_self (hlt v (List.mem_cons_self ..))]
      · refine ih ⟨hnodup.2, fun w hw => ?_⟩ hv
        rw [List.length_set]
        exact hlt w (List.mem_cons_of_mem _ hw)

theorem getElem?_rowWith {v : Nat × α} (hfits : Fits width values) (hv : v ∈ values) :
    (rowWith blank width values)[v.1]? = some v.2 := by
  refine getElem?_entered ?_ hv
  rw [List.length_replicate]
  exact hfits

theorem getElem?_rowWith_of_not_mem {column : Nat} (hlt : column < width)
    (hcolumn : column ∉ values.map Prod.fst) :
    (rowWith blank width values)[column]? = some blank := by
  rw [rowWith, getElem?_entered_of_not_mem hcolumn, List.getElem?_replicate, if_pos hlt]

theorem getElem?_toArray_rowWith {v : Nat × α} (hfits : Fits width values) (hv : v ∈ values) :
    (rowWith blank width values).toArray[v.1]? = some v.2 := by
  rw [List.getElem?_toArray]
  exact getElem?_rowWith hfits hv

theorem getElem?_toArray_rowWith_nil {column : Nat} (hlt : column < width) :
    (rowWith blank width []).toArray[column]? = some blank := by
  rw [List.getElem?_toArray]
  exact getElem?_rowWith_of_not_mem hlt List.not_mem_nil

/-! ## Writing -/

theorem writeFrom?_eq (pre row post : List α) (hcol : ∀ v ∈ values, v.1 < row.length) :
    writeFrom? pre.length values (pre ++ row ++ post).toArray =
      some (pre ++ entered row values ++ post).toArray := by
  induction values generalizing row with
  | nil => rfl
  | cons v values ih =>
      obtain ⟨column, a⟩ := v
      have hlt : column < row.length := hcol _ (List.mem_cons_self ..)
      have hsize : pre.length + column < (pre ++ row ++ post).toArray.size := by
        simp only [List.size_toArray, List.length_append]
        omega
      have hset : (pre ++ row ++ post).toArray.set (pre.length + column) a hsize =
          (pre ++ row.set column a ++ post).toArray := by
        rw [List.set_toArray, List.append_assoc, List.set_append_right _ _ (by omega),
          Nat.add_sub_cancel_left, List.set_append_left _ _ hlt, ← List.append_assoc]
      unfold writeFrom?
      rw [dif_pos hsize, hset, ih (row.set column a)]
      · rfl
      · intro v hv
        rw [List.length_set]
        exact hcol v (List.mem_cons_of_mem _ hv)

/-- Writing rows into a blank stretch of a record leaves them there, one after the
other. -/
theorem writeRows?_eq (start? : Nat → Option Nat) (blank : α) (row : Nat)
    (pre post : List α)
    (hstart : ∀ i < rows.length, start? (row + i) = some (pre.length + i * width))
    (hcol : ∀ values ∈ rows, ∀ v ∈ values, v.1 < width) :
    writeRows? start? row rows
        (pre ++ List.replicate (rows.length * width) blank ++ post).toArray =
      some (pre ++ rows.flatMap (rowWith blank width) ++ post).toArray := by
  induction rows generalizing row pre with
  | nil => simp [writeRows?]
  | cons values rows ih =>
      have hfirst := hstart 0 (Nat.zero_lt_succ _)
      rw [Nat.add_zero, Nat.zero_mul, Nat.add_zero] at hfirst
      have hrow : pre ++ List.replicate ((values :: rows).length * width) blank ++ post =
          pre ++ List.replicate width blank ++
            (List.replicate (rows.length * width) blank ++ post) := by
        rw [List.length_cons, Nat.succ_mul, Nat.add_comm (rows.length * width),
          ← List.replicate_append_replicate]
        simp only [List.append_assoc]
      have hwrite := writeFrom?_eq pre (List.replicate width blank)
        (List.replicate (rows.length * width) blank ++ post)
        (fun v hv => by
          rw [List.length_replicate]
          exact hcol values (List.mem_cons_self ..) v hv)
      have hrest := ih (row + 1) (pre ++ rowWith blank width values)
        (fun i hi => by
          rw [List.length_append, length_rowWith, Nat.add_assoc, Nat.add_comm 1 i,
            hstart (i + 1) (Nat.succ_lt_succ hi), Nat.succ_mul, Nat.add_comm (i * width),
            Nat.add_assoc])
        (fun values hvalues => hcol values (List.mem_cons_of_mem _ hvalues))
      unfold writeRows?
      rw [hfirst, hrow]
      simp only [Option.bind_eq_bind, Option.bind_some]
      rw [hwrite, Option.bind_some]
      show writeRows? start? (row + 1) rows
        (pre ++ rowWith blank width values ++ _).toArray = _
      rw [← List.append_assoc, hrest, List.flatMap_cons]
      simp only [List.append_assoc]

/-! ## Reading -/

/-- Where all pieces are of one length, the pieces begin at its multiples. -/
theorem prefix_drop_flatMap {l : List β} {f : β → List α} {k n : Nat} {b : β}
    (hlen : ∀ b ∈ l, (f b).length = k) (hb : l[n]? = some b) :
    f b <+: (l.flatMap f).drop (n * k) := by
  induction l generalizing n with
  | nil => simp at hb
  | cons c l ih =>
      cases n with
      | zero =>
          rw [List.getElem?_cons_zero, Option.some.injEq] at hb
          subst hb
          rw [Nat.zero_mul, List.drop_zero, List.flatMap_cons]
          exact List.prefix_append _ _
      | succ n =>
          rw [List.getElem?_cons_succ] at hb
          have hc : (f c).length = k := hlen c (List.mem_cons_self ..)
          rw [List.flatMap_cons, Nat.succ_mul, Nat.add_comm, ← hc, List.drop_length_add_append,
            hc]
          exact ih (fun b hb => hlen b (List.mem_cons_of_mem _ hb)) hb

/-- A row of a block, blank if the block was given fewer. -/
theorem rowWith_prefix_blockOf {i : Nat} (hi : i < count) :
    rowWith blank width (rows[i]?.getD []) <+:
      (blockOf blank width count rows).drop (i * width) := by
  refine prefix_drop_flatMap (fun _ _ => length_rowWith) ?_
  by_cases hlt : i < rows.length
  · rw [List.getElem?_append_left hlt, List.getElem?_eq_getElem hlt, Option.getD_some]
  · rw [List.getElem?_append_right (by omega), List.getElem?_replicate, if_pos (by omega),
      List.getElem?_eq_none (by omega), Option.getD_none]

/-- A row of a block within a list of blocks. -/
theorem row_prefix {l : List β} {rowsOf : β → List (List (Nat × α))} {n i : Nat} {b : β}
    (hrows : ∀ b ∈ l, (rowsOf b).length ≤ count) (hb : l[n]? = some b) (hi : i < count) :
    rowWith blank width ((rowsOf b)[i]?.getD []) <+:
      (l.flatMap fun b => blockOf blank width count (rowsOf b)).drop ((n * count + i) * width) := by
  have hblock := prefix_drop_flatMap
    (f := fun b => blockOf blank width count (rowsOf b))
    (fun b hb => length_blockOf (hrows b hb)) hb
  have hdrop := (rowWith_prefix_blockOf hi).trans (hblock.drop (i * width))
  rw [List.drop_drop] at hdrop
  rw [Nat.add_mul, Nat.mul_assoc]
  exact hdrop

theorem rowOf_of_prefix {record : Array α} {row : List α} (keyword : Keyword)
    (hrow : row <+: record.toList.drop start) (hpos : 0 < row.length)
    (hsize : record.size < UInt64.size) :
    rowOf record keyword (some start) row.length = .ok row.toArray := by
  have hle := hrow.length_le
  have hlen : record.toList.length = record.size := rfl
  rw [List.length_drop, hlen] at hle
  rw [rowOf_eq_ok]
  refine ⟨start, rfl, by omega, by omega, ?_⟩
  rw [← Array.toList_inj, Array.toList_extract, List.extract_eq_take_drop,
    Nat.add_sub_cancel_left]
  exact (List.prefix_iff_eq_take.mp hrow).symm

end

/-! ## Records in two parts -/

section
variable {α β : Type} {blank : α} {width count left : Nat}

/-- A record with the pieces of what is done, and room for `left` more pieces. -/
def sheet (blank : α) (size : Nat) (piece : β → List α) (done : List β) (left : Nat) :
    Array α :=
  (done.flatMap piece ++ List.replicate (left * size) blank).toArray

theorem toList_sheet {size : Nat} {piece : β → List α} {done : List β} :
    (sheet blank size piece done 0).toList = done.flatMap piece := by
  simp [sheet]

theorem sheet_nil {size : Nat} {piece : β → List α} :
    sheet blank size piece [] left = Array.replicate (left * size) blank := by
  simp [sheet]

/-- The room for the next piece. -/
theorem sheet_succ {size : Nat} {piece : β → List α} {done : List β} :
    sheet blank size piece done (left + 1) =
      (done.flatMap piece ++ List.replicate size blank ++
        List.replicate (left * size) blank).toArray := by
  unfold sheet
  rw [Nat.succ_mul, Nat.add_comm (left * size), ← List.replicate_append_replicate,
    List.append_assoc]

theorem sheet_append {size : Nat} {piece : β → List α} {done : List β} {b : β} :
    sheet blank size piece (done ++ [b]) left =
      (done.flatMap piece ++ piece b ++ List.replicate (left * size) blank).toArray := by
  unfold sheet
  rw [List.flatMap_append, List.flatMap_singleton]

/-- Writing the rows of one more block. -/
theorem writeRows?_sheet {rowsOf : β → List (List (Nat × α))} {done : List β} {b : β}
    {start? : Nat → Option Nat} (hdone : ∀ c ∈ done, (rowsOf c).length ≤ count)
    (hb : (rowsOf b).length ≤ count)
    (hcol : ∀ values ∈ rowsOf b, ∀ v ∈ values, v.1 < width)
    (hstart : ∀ i < count, start? i = some ((done.length * count + i) * width)) :
    writeRows? start? 0 (rowsOf b) (sheet blank (count * width)
        (fun c => blockOf blank width count (rowsOf c)) done (left + 1)) =
      some (sheet blank (count * width)
        (fun c => blockOf blank width count (rowsOf c)) (done ++ [b]) left) := by
  have hlen : (done.flatMap fun c => blockOf blank width count (rowsOf c)).length =
      done.length * (count * width) :=
    length_flatMap_of_length fun c hc => length_blockOf (hdone c hc)
  have hroom : List.replicate (count * width) blank =
      List.replicate ((rowsOf b).length * width) blank ++
        List.replicate ((count - (rowsOf b).length) * width) blank := by
    rw [List.replicate_append_replicate, ← Nat.add_mul, Nat.add_sub_cancel' hb]
  have hwrite := writeRows?_eq start? blank 0
    (done.flatMap fun c => blockOf blank width count (rowsOf c))
    (List.replicate ((count - (rowsOf b).length) * width) blank ++
      List.replicate (left * (count * width)) blank)
    (fun i hi => by
      rw [hlen, Nat.zero_add, hstart i (by omega), Nat.add_mul, Nat.mul_assoc])
    hcol
  rw [sheet_succ, sheet_append, hroom, blockOf_eq]
  simp only [List.append_assoc] at hwrite ⊢
  exact hwrite

end

end Wellbore
