import Wellbore.Proofs.Json.Denotations
import Wellbore.Json.Document

/-!
# Records written and read

A record is written as its fields, those that are absent being left out. As long as
no two fields have one name, reading the fields by their names finds each where it
was written and finds nothing where one was left out (`alignedTo_written`), so that
what is left out is told apart from what is empty. The rest of the module is the
same for one field: its value is read as it was written, and what is read from a
value that a text can hold is such a value again.
-/

namespace Wellbore

namespace Fields

variable {ν : Type} {fields : List (String × Option ν)}

/-- The entries of the fields that are not left out. -/
def written (fields : List (String × Option ν)) : List (String × ν) :=
  fields.filterMap fun f => f.2.map (f.1, ·)

theorem mem_written {entry : String × ν} :
    entry ∈ written fields ↔ (entry.1, some entry.2) ∈ fields := by
  simp only [written, List.mem_filterMap, Option.map_eq_some_iff]
  constructor
  · rintro ⟨⟨name, value⟩, hmem, _, rfl, rfl⟩
    exact hmem
  · intro hmem
    exact ⟨_, hmem, _, rfl, rfl⟩

theorem names_written_sublist : ((written fields).map (·.1)).Sublist (fields.map (·.1)) := by
  induction fields with
  | nil => exact .slnil
  | cons f fields ih =>
      obtain ⟨name, value⟩ := f
      cases value with
      | none => exact ih.cons name
      | some value => exact ih.cons_cons name

theorem lookup_written {name : String} {value : Option ν} (hnames : (fields.map (·.1)).Nodup)
    (hmem : (name, value) ∈ fields) : (written fields).lookup name = value := by
  induction fields with
  | nil => cases hmem
  | cons f fields ih =>
      obtain ⟨hf, hrest⟩ := List.nodup_cons.mp hnames
      rcases List.mem_cons.mp hmem with rfl | htail
      · cases value with
        | none =>
            -- The name is not written further on either, since no two fields share one.
            show (written fields).lookup name = none
            rw [List.lookup_eq_none_iff]
            intro entry hentry
            rw [bne_iff_ne]
            rintro rfl
            exact hf (names_written_sublist.subset (List.mem_map_of_mem hentry))
        | some value => exact List.lookup_cons_self
      · have hne : name ≠ f.1 := by
          rintro rfl
          exact hf (List.mem_map.mpr ⟨_, htail, rfl⟩)
        obtain ⟨other, otherValue⟩ := f
        cases otherValue with
        | none => exact ih hrest htail
        | some otherValue =>
            show List.lookup name ((other, otherValue) :: written fields) = value
            rw [List.lookup_cons, beq_eq_false_iff_ne.mpr hne]
            exact ih hrest htail

theorem hasDuplicate_eq_false {names : List String} :
    hasDuplicate names = false ↔ names.Nodup := by
  induction names with
  | nil => simp [hasDuplicate]
  | cons name names ih => rw [hasDuplicate, Bool.or_eq_false_iff, ih, List.nodup_cons]; simp

theorem align_written (hnames : (fields.map (·.1)).Nodup) :
    align (fields.map (·.1)) (.named (written fields)) = some (fields.map (·.2)) := by
  have hknown : (written fields).filter (fun entry => (fields.map (·.1)).contains entry.1) =
      written fields := by
    refine List.filter_eq_self.mpr fun entry hentry => ?_
    rw [List.contains_iff_mem]
    exact names_written_sublist.subset (List.mem_map_of_mem hentry)
  have hunique : hasDuplicate ((written fields).map (·.1)) = false :=
    hasDuplicate_eq_false.mpr (hnames.sublist names_written_sublist)
  have hlookup : (fields.map (·.1)).map (fun name => (written fields).lookup name) =
      fields.map (·.2) := by
    rw [List.map_map]
    exact List.map_congr_left fun f hf => lookup_written hnames hf
  simp only [align, hknown, hunique, Bool.false_eq_true, if_false, hlookup]

/-- The values that are given, in whichever way. -/
def given : Fields ν → List ν
  | .named entries => entries.map (·.2)
  | .ordered values => values

/-- Aligning moves values and makes none up. -/
theorem mem_given_of_align {record : Fields ν} {names : List String} {values : List (Option ν)}
    (h : record.align names = some values) {value : ν} (hmem : some value ∈ values) :
    value ∈ record.given := by
  cases record with
  | named entries =>
      obtain ⟨-, heq⟩ := Option.ite_none_left_eq_some.mp h
      cases heq
      obtain ⟨name, -, hlookup⟩ := List.mem_map.mp hmem
      obtain ⟨before, after, hentries, -⟩ := List.lookup_eq_some_iff.mp hlookup
      have hknown : (name, value) ∈ entries.filter fun entry => names.contains entry.1 :=
        hentries ▸ List.mem_append_right before List.mem_cons_self
      exact List.mem_map_of_mem (f := (·.2)) (List.mem_filter.mp hknown).1
  | ordered given =>
      obtain ⟨-, heq⟩ := Option.ite_none_left_eq_some.mp h
      cases heq
      rcases List.mem_append.mp hmem with hmem | hmem
      · obtain ⟨_, hgiven, heq⟩ := List.mem_map.mp hmem
        cases heq
        exact hgiven
      · cases List.eq_of_mem_replicate hmem

end Fields

namespace Json

variable {α : Type} {v : Json} {P : Float → Prop} {Q : Prop}

/-! ## Fields of a record -/

theorem ofOption_eq (o : Option α) : ReadMonad.ofOption o = o := by
  cases o <;> rfl

theorem alignedTo_eq_some {names : List String} {values : List (Option Json)} :
    Document.alignedTo names v = some values ↔
      ∃ record, Document.fields? v = some record ∧ record.align names = some values := by
  simp only [Document.alignedTo, Option.bind_eq_bind, Option.bind_eq_some_iff, ofOption_eq]

theorem alignedTo_written {fields : List (String × Option Json)}
    (hnames : (fields.map (·.1)).Nodup) :
    Document.alignedTo (fields.map (·.1)) (Json.obj (Fields.written fields)) =
      some (fields.map (·.2)) :=
  alignedTo_eq_some.mpr ⟨_, rfl, Fields.align_written hnames⟩

theorem required_eq_some {read : Json → Option α} {field : Option Json} {a : α} :
    Document.required read field = some a ↔ ∃ v, field = some v ∧ read v = some a := by
  cases field with
  | none => simp [Document.required, ReadMonad.refuse]
  | some v => simp [Document.required]

/-- Only a list is written here, and a list is not written as absent. -/
theorem optional_map {read : Json → Option α} {write : α → List Json} {field : Option α}
    (h : ∀ a ∈ field, read (.arr (write a)) = some a) :
    Document.optional read (field.map fun a => Json.arr (write a)) = some field := by
  cases field with
  | none => rfl
  | some a =>
      show (read (.arr (write a))).map some = _
      rw [h a rfl]
      rfl

theorem optional_eq_some {read : Json → Option α} {field : Option Json} {a : α}
    (h : Document.optional read field = some (some a)) :
    ∃ v, field = some v ∧ read v = some a := by
  cases field with
  | none => cases h
  | some v =>
      refine ⟨v, rfl, ?_⟩
      cases v with
      | null => cases h
      | _ => simpa [Document.optional, Document.present?] using h

/-! ## Values of one kind -/

theorem text?_str (s : String) : Document.text? (Json.str s) = some s := rfl

theorem natural?_nat {n : Nat} (h : n < UInt64.size) :
    Document.natural? (Json.nat n) = some n := by
  show (if (0 : Int) ≤ n then Word.unsigned64? (n : Int).toNat else none) = some n
  rw [if_pos (Int.natCast_nonneg n), Int.toNat_natCast, Word.unsigned64?, if_pos h]

theorem lt_of_natural? {n : Nat} (h : Document.natural? v = some n) : n < UInt64.size := by
  cases v with
  | int k =>
      change (if 0 ≤ k then Word.unsigned64? k.toNat else none) = some n at h
      obtain ⟨-, h⟩ := Option.ite_none_right_eq_some.mp h
      obtain ⟨hlt, heq⟩ := Option.ite_none_right_eq_some.mp h
      cases heq
      exact hlt
  | _ => cases h

theorem integer?_word (n : Int32) : Document.integer? (Json.word n) = some n := by
  show Word.signed32? n.toInt = some n
  rw [Word.signed32?, if_pos ⟨n.minValue_le_toInt, n.toInt_le⟩, Int32.ofInt_toInt]

theorem real?_real (x : Float) : Document.real? (Json.real x) = some x := rfl

theorem listOf?_ofList {read : Json → Option α} {write : α → Json} {as : List α}
    (h : ∀ a ∈ as, read (write a) = some a) :
    Document.listOf? read (ofList write as) = some as := by
  show (as.map write).mapM read = some as
  induction as with
  | nil => rfl
  | cons a as ih =>
      rw [List.map_cons, List.mapM_cons, h a List.mem_cons_self,
        ih fun b hb => h b (List.mem_cons_of_mem a hb)]
      rfl

theorem mem_of_mapM {read : Json → Option α} {items : List Json} {as : List α}
    (h : items.mapM read = some as) {a : α} (hmem : a ∈ as) : ∃ v ∈ items, read v = some a := by
  induction items generalizing as with
  | nil =>
      cases h
      cases hmem
  | cons v items ih =>
      simp only [List.mapM_cons, Option.bind_eq_bind, Option.bind_eq_some_iff] at h
      obtain ⟨b, hb, bs, hbs, heq⟩ := h
      cases heq
      rcases List.mem_cons.mp hmem with rfl | hmem
      · exact ⟨v, List.mem_cons_self, hb⟩
      · obtain ⟨w, hw, hread⟩ := ih hbs hmem
        exact ⟨w, List.mem_cons_of_mem v hw, hread⟩

/-! ## Proper values -/

theorem proper_nat {n : Nat} (h : n < UInt64.size) : (Json.nat n).Proper P Q :=
  .int (fits64_natCast h)

theorem proper_word (n : Int32) : (Json.word n).Proper P Q := by
  refine .int ⟨?_, ?_⟩
  · exact Int.le_trans (by decide) n.minValue_le_toInt
  · exact Int.lt_of_le_of_lt n.toInt_le (by decide)

theorem proper_ofList {write : α → Json} {as : List α} (h : ∀ a ∈ as, (write a).Proper P Q) :
    (ofList write as).Proper P Q := by
  refine .arr fun v hv => ?_
  obtain ⟨a, ha, rfl⟩ := List.mem_map.mp hv
  exact h a ha

theorem proper_written {fields : List (String × Option Json)}
    (h : ∀ f ∈ fields, ∀ v ∈ f.2, v.Proper P Q) : (Json.obj (Fields.written fields)).Proper P Q :=
  .obj fun entry hentry => h _ (Fields.mem_written.mp hentry) entry.2 rfl

theorem Proper.field (hv : v.Proper P Q) {names : List String} {values : List (Option Json)}
    (h : Document.alignedTo names v = some values) {value : Json} (hmem : some value ∈ values) :
    value.Proper P Q := by
  obtain ⟨record, hrecord, halign⟩ := alignedTo_eq_some.mp h
  have hgiven := Fields.mem_given_of_align halign hmem
  cases hv with
  | arr hitems =>
      cases hrecord
      exact hitems value hgiven
  | obj hmembers =>
      cases hrecord
      obtain ⟨entry, hentry, rfl⟩ := List.mem_map.mp hgiven
      exact hmembers entry hentry
  | _ => cases hrecord

theorem Proper.item (hv : v.Proper P Q) {read : Json → Option α} {as : List α}
    (h : Document.listOf? read v = some as) {a : α} (hmem : a ∈ as) :
    ∃ w : Json, w.Proper P Q ∧ read w = some a := by
  cases hv with
  | arr hitems =>
      obtain ⟨w, hw, hread⟩ := mem_of_mapM h hmem
      exact ⟨w, hitems w hw, hread⟩
  | _ => cases h

/-- A real may be written as an integer, and is finite then too. -/
theorem Proper.isFinite {x : Float} (hv : v.Proper (fun x => x.isFinite = true) Q)
    (h : Document.real? v = some x) : x.isFinite = true := by
  cases hv with
  | real hx =>
      cases h
      exact hx
  | @int n hn =>
      have hsize : n.natAbs < UInt64.size := by
        obtain ⟨hleast, hmost⟩ := hn
        have hmin : Int64.minValue.toInt = -9223372036854775808 := rfl
        have hwide : UInt64.size = 18446744073709551616 := rfl
        omega
      change some (if n < 0 then -Float.ofNat n.natAbs else Float.ofNat n.natAbs) = some x at h
      cases h
      split
      · exact Decimal.isFinite_neg (Decimal.isFinite_ofNat hsize)
      · exact Decimal.isFinite_ofNat hsize
  | _ => cases h

end Json

end Wellbore
