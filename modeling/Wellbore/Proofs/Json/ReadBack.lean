import Wellbore.Proofs.Json.Literals

/-!
# Values written and read

The compact text of a value is read as that value (`parse?_compact`), provided that each
of its numbers is. Two things make the induction over the value go through. A value is
read off the front of a text, so the statement is made for every text that goes on with
something no number goes on with, which is what follows an item or a member. And a value
begins with a character that is neither a blank nor a closing bracket (`Opens`), so that
behind an opening bracket the reader sees an item. The fuel that is asked for is twice
the length of the text, since opening a list and reading its first item are two calls
for one character.
-/

namespace Wellbore.Json

open Decimal

variable {P : Float → Prop} {v : Json} {items : List Json} {members : List (String × Json)}
  {cs rest : List Char} {fuel : Nat}

/-- A value of integers of 64 bits and of reals that are `P`. Literals that denote nothing
are among it only if `Q`. -/
inductive Proper (P : Float → Prop) (Q : Prop) : Json → Prop
  | null : Proper P Q .null
  | bool (b : Bool) : Proper P Q (.bool b)
  | int {n : Int} (h : Fits64 n) : Proper P Q (.int n)
  | real {x : Float} (h : P x) : Proper P Q (.real x)
  | str (s : String) : Proper P Q (.str s)
  | arr {items : List Json} (h : ∀ v ∈ items, Proper P Q v) : Proper P Q (.arr items)
  | obj {members : List (String × Json)} (h : ∀ m ∈ members, Proper P Q m.2) :
    Proper P Q (.obj members)
  | unreadable (h : Q) : Proper P Q .unreadable

/-! ## The texts of lists and records -/

theorem compactItems_eq_map (items : List Json) : compactItems items = items.map compact := by
  induction items with
  | nil => rfl
  | cons v items ih => rw [compactItems, ih, List.map_cons]

theorem compactMembers_eq_map (members : List (String × Json)) :
    compactMembers members = members.map fun m => quoted m.1 ++ ":" ++ compact m.2 := by
  induction members with
  | nil => rfl
  | cons m members ih => rw [compactMembers, ih, List.map_cons]

/-- The characters of a value. -/
def chars (v : Json) : List Char := (compact v).toList

/-- The characters of a member of a record. -/
def memberChars (m : String × Json) : List Char :=
  '"' :: (m.1.toList.flatMap escape ++ '"' :: ':' :: chars m.2)

theorem chars_arr (items : List Json) :
    chars (.arr items) = '[' :: ([','].intercalate (items.map chars) ++ [']']) := by
  simp only [chars, compact, compactItems_eq_map, String.toList_append, String.toList_intercalate,
    List.map_map]
  rfl

theorem chars_obj (members : List (String × Json)) : chars (.obj members) =
    '\x7b' :: ([','].intercalate (members.map memberChars) ++ ['\x7d']) := by
  have hmember : String.toList ∘ (fun m : String × Json => quoted m.1 ++ ":" ++ compact m.2) =
      memberChars := by
    funext m
    simp only [Function.comp, memberChars, String.toList_append, toList_quoted]
    simp [chars]
  simp only [chars, compact, compactMembers_eq_map, String.toList_append, String.toList_intercalate,
    List.map_map, hmember]
  rfl

/-! ## Where a value begins -/

theorem numberText?_head {c : Char} {p : NumberText × List Char}
    (h : numberText? (c :: cs) = some p) : c = '-' ∨ c.isDigit = true := by
  by_cases hc : c = '-'
  · exact .inl hc
  · by_cases hdigit : c.isDigit = true
    · exact .inr hdigit
    · rw [numberText?, signPart_of_ne hc] at h
      simp only [digitRun, List.takeWhile_cons_of_neg hdigit] at h
      cases h

/-- A value begins with a character that nothing else begins with. -/
def Opens (cs : List Char) : Prop :=
  ∃ c cs', cs = c :: cs' ∧ isBlank c = false ∧ c ≠ ']' ∧ c ≠ '\x7d'

theorem opens_of_isDigit {c : Char} (h : c = '-' ∨ c.isDigit = true) : Opens (c :: cs) := by
  refine ⟨c, cs, rfl, ?_, ?_, ?_⟩
  · rcases h with rfl | h
    · rfl
    · have hc : 48 ≤ c.toNat ∧ c.toNat ≤ 57 := Char.isDigit_iff_toNat.mp h
      simp only [isBlank, Bool.or_eq_false_iff, decide_eq_false_iff_not]
      refine ⟨⟨⟨?_, ?_⟩, ?_⟩, ?_⟩ <;> (rintro rfl; cases h)
  · rintro rfl
    rcases h with h | h <;> cases h
  · rintro rfl
    rcases h with h | h <;> cases h

theorem Literal.head {cs : List Char} (h : Literal cs v) :
    ∃ c cs', cs = c :: cs' ∧ (c = '-' ∨ c.isDigit = true) := by
  obtain ⟨t, ht, -⟩ := h
  cases cs with
  | nil => cases ht
  | cons c cs => exact ⟨c, cs, rfl, numberText?_head ht⟩

theorem opens_chars (h : Proper Lossless False v) : Opens (chars v) := by
  cases h with
  | null => exact ⟨_, _, rfl, rfl, by decide, by decide⟩
  | bool b => cases b <;> exact ⟨_, _, rfl, rfl, by decide, by decide⟩
  | int hn =>
      obtain ⟨c, cs, hcs, hc⟩ := (literal_int hn).head
      have hchars : chars (.int _) = _ := hcs
      exact hchars ▸ opens_of_isDigit hc
  | real hx =>
      obtain ⟨c, cs, hcs, hc⟩ := hx.head
      have hchars : chars (.real _) = _ := hcs
      exact hchars ▸ opens_of_isDigit hc
  | str s => exact ⟨_, _, toList_quoted s, rfl, by decide, by decide⟩
  | arr => exact ⟨_, _, chars_arr _, rfl, by decide, by decide⟩
  | obj => exact ⟨_, _, chars_obj _, rfl, by decide, by decide⟩
  | unreadable h => exact h.elim

theorem skipBlanks_cons {c : Char} (h : isBlank c = false) : skipBlanks (c :: cs) = c :: cs := by
  rw [skipBlanks, List.dropWhile_cons_of_neg]
  rw [h]
  exact Bool.false_ne_true

theorem Opens.skipBlanks_append (h : Opens cs) : skipBlanks (cs ++ rest) = cs ++ rest := by
  obtain ⟨c, cs', rfl, hblank, -⟩ := h
  exact skipBlanks_cons hblank

/-- What begins like a number is read as one. -/
theorem value?_number {c : Char} (h : c = '-' ∨ c.isDigit = true) :
    value? (fuel + 1) (c :: cs) =
      (numberText? (c :: cs)).map fun p => (p.1.value, p.2) := by
  have hother {d : Char} (hd : d ≠ '-') (hdigit : d.isDigit = false) : c ≠ d := by
    rintro rfl
    rcases h with h | h
    · exact hd h
    · rw [hdigit] at h
      cases h
  rw [value?]
  · cases numberText? (c :: cs) <;> rfl
  all_goals
    intro _ heq
    exact hother (by decide) (by decide) (List.cons.inj heq).1

theorem value?_of_literal (h : Literal cs v) (hrest : NumberEnd rest) :
    value? (fuel + 1) (cs ++ rest) = some (v, rest) := by
  obtain ⟨c, cs', rfl, hc⟩ := h.head
  obtain ⟨t, ht, rfl⟩ := h
  rw [List.cons_append, value?_number hc, ← List.cons_append, numberText?_append ht hrest]
  rfl

/-! ## Values -/

/-- A value is read off the front of every text that begins with its own. -/
def ReadsBack (v : Json) : Prop :=
  ∀ (fuel : Nat) (rest : List Char), 2 * (chars v).length ≤ fuel → NumberEnd rest →
    value? fuel (chars v ++ rest) = some (v, rest)

theorem numberEnd_cons {c : Char} (hdigit : c.isDigit = false)
    (hmark : c ≠ '.' ∧ c ≠ 'e' ∧ c ≠ 'E') : NumberEnd (c :: cs) := by
  intro d hd
  obtain rfl : c = d := by simpa using hd
  exact ⟨hdigit, hmark⟩

theorem Opens.append (h : Opens cs) : Opens (cs ++ rest) := by
  obtain ⟨c, cs', rfl, hc⟩ := h
  exact ⟨c, cs' ++ rest, rfl, hc⟩

theorem Opens.joined {texts : List (List Char)} (h : Opens cs) :
    Opens ([','].intercalate (cs :: texts)) := by
  cases texts with
  | nil => rwa [List.intercalate_singleton]
  | cons text texts =>
      rw [List.intercalate_cons_cons, List.append_assoc]
      exact h.append

theorem items?_chars {acc : List Json} (hitems : ∀ v ∈ items, ReadsBack v)
    (hopens : ∀ v ∈ items, Opens (chars v)) (hne : items ≠ [])
    (hfuel : 2 * ([','].intercalate (items.map chars)).length < fuel) :
    items? fuel acc ([','].intercalate (items.map chars) ++ ']' :: rest) =
      some (.arr (acc.reverse ++ items), rest) := by
  induction items generalizing fuel acc with
  | nil => exact absurd rfl hne
  | cons v items ih =>
      obtain ⟨fuel, rfl⟩ := Nat.exists_eq_succ_of_ne_zero (show fuel ≠ 0 by omega)
      have hv := hitems v List.mem_cons_self
      cases items with
      | nil =>
          rw [List.map_singleton, List.intercalate_singleton] at hfuel ⊢
          rw [items?, hv fuel _ (by omega) (numberEnd_cons rfl (by decide))]
          show some (arr (v :: acc).reverse, rest) = _
          rw [List.reverse_cons]
      | cons w items =>
          have hw : Opens ([','].intercalate ((w :: items).map chars)) :=
            (hopens w (List.mem_cons_of_mem v List.mem_cons_self)).joined
          rw [List.map_cons, List.map_cons, List.intercalate_cons_cons, ← List.map_cons] at hfuel ⊢
          simp only [List.length_append, List.length_singleton] at hfuel
          rw [items?, List.append_assoc, List.append_assoc, List.singleton_append,
            hv fuel _ (by omega) (numberEnd_cons rfl (by decide))]
          show items? fuel (v :: acc) (skipBlanks _) = _
          rw [hw.skipBlanks_append,
            ih (fun u hu => hitems u (List.mem_cons_of_mem v hu))
              (fun u hu => hopens u (List.mem_cons_of_mem v hu)) (List.cons_ne_nil w items)
              (by omega),
            List.reverse_cons, List.append_assoc, List.singleton_append]

theorem ofMembers_named (members : List (String × Json)) :
    ofMembers (members.map fun m => (some m.1, m.2)) = .obj members := by
  have hnames : ((members.map fun m => (some m.1, m.2)).mapM fun (m : Option String × Json) =>
      m.1.map (·, m.2)) = some members := by
    induction members with
    | nil => rfl
    | cons m members ih => rw [List.map_cons, List.mapM_cons, ih]; rfl
  unfold ofMembers
  split
  next hread => exact congrArg obj (Option.some.inj (hread.symm.trans hnames))
  next hread => cases hread.symm.trans hnames

/-- One member off the front of a record. -/
theorem members?_memberChars {acc : List (Option String × Json)} {m : String × Json}
    (hopens : Opens (chars m.2)) (hvalue : value? fuel (chars m.2 ++ rest) = some (m.2, rest)) :
    members? (fuel + 1) acc (memberChars m ++ rest) =
      match skipBlanks rest with
      | ',' :: rest => members? fuel ((some m.1, m.2) :: acc) (skipBlanks rest)
      | '\x7d' :: rest => some (ofMembers ((some m.1, m.2) :: acc).reverse, rest)
      | _ => none := by
  have hchars : memberChars m ++ rest =
      '"' :: (m.1.toList.flatMap escape ++ '"' :: ':' :: (chars m.2 ++ rest)) := by
    simp [memberChars]
  rw [hchars, members?, string?_quoted]
  show (value? fuel (skipBlanks (chars m.2 ++ rest))).bind _ = _
  rw [hopens.skipBlanks_append, hvalue]
  rfl

theorem members?_chars {acc : List (String × Json)} (hmembers : ∀ m ∈ members, ReadsBack m.2)
    (hopens : ∀ m ∈ members, Opens (chars m.2)) (hne : members ≠ [])
    (hfuel : 2 * ([','].intercalate (members.map memberChars)).length < fuel) :
    members? fuel (acc.map fun m => (some m.1, m.2))
        ([','].intercalate (members.map memberChars) ++ '\x7d' :: rest) =
      some (.obj (acc.reverse ++ members), rest) := by
  induction members generalizing fuel acc with
  | nil => exact absurd rfl hne
  | cons m members ih =>
      obtain ⟨fuel, rfl⟩ := Nat.exists_eq_succ_of_ne_zero (show fuel ≠ 0 by omega)
      have hm := hmembers m List.mem_cons_self
      have hlength : (chars m.2).length ≤ (memberChars m).length := by
        simp only [memberChars, List.length_cons, List.length_append]
        omega
      cases members with
      | nil =>
          rw [List.map_singleton, List.intercalate_singleton] at hfuel ⊢
          rw [members?_memberChars (hopens m List.mem_cons_self)
            (hm fuel _ (by omega) (numberEnd_cons rfl (by decide)))]
          show some (ofMembers ((m :: acc).map fun m => (some m.1, m.2)).reverse, rest) = _
          rw [← List.map_reverse, ofMembers_named, List.reverse_cons]
      | cons n members =>
          have hn : Opens ([','].intercalate ((n :: members).map memberChars)) :=
            Opens.joined ⟨'"', _, rfl, rfl, by decide, by decide⟩
          rw [List.map_cons, List.map_cons, List.intercalate_cons_cons, ← List.map_cons] at hfuel ⊢
          simp only [List.length_append, List.length_singleton] at hfuel
          rw [List.append_assoc, List.append_assoc, List.singleton_append,
            members?_memberChars (hopens m List.mem_cons_self)
              (hm fuel _ (by omega) (numberEnd_cons rfl (by decide)))]
          show members? fuel ((m :: acc).map fun m => (some m.1, m.2)) (skipBlanks _) = _
          rw [hn.skipBlanks_append,
            ih (fun u hu => hmembers u (List.mem_cons_of_mem m hu))
              (fun u hu => hopens u (List.mem_cons_of_mem m hu)) (List.cons_ne_nil n members)
              (by omega),
            List.reverse_cons, List.append_assoc, List.singleton_append]

/-- Behind an opening bracket the first item follows, unless the bracket is closed at once. -/
theorem value?_bracket (h : Opens cs) : value? (fuel + 1) ('[' :: cs) = items? fuel [] cs := by
  obtain ⟨c, cs', rfl, hblank, hclose, -⟩ := h
  rw [value?, skipBlanks_cons hblank]
  split
  next heq => exact absurd (List.cons.inj heq).1 hclose
  next => rfl

theorem value?_brace (h : Opens cs) : value? (fuel + 1) ('\x7b' :: cs) = members? fuel [] cs := by
  obtain ⟨c, cs', rfl, hblank, -, hclose⟩ := h
  rw [value?, skipBlanks_cons hblank]
  split
  next heq => exact absurd (List.cons.inj heq).1 hclose
  next => rfl

/-- The fuel that is asked for is never zero. -/
theorem ReadsBack.of_succ (hopens : Opens (chars v))
    (h : ∀ (fuel : Nat) (rest : List Char), 2 * (chars v).length ≤ fuel + 1 → NumberEnd rest →
      value? (fuel + 1) (chars v ++ rest) = some (v, rest)) : ReadsBack v := by
  intro fuel rest hfuel hrest
  obtain ⟨c, cs, hcs, -⟩ := hopens
  rw [hcs, List.length_cons] at hfuel
  obtain ⟨fuel, rfl⟩ := Nat.exists_eq_succ_of_ne_zero (show fuel ≠ 0 by omega)
  exact h fuel rest (by rw [hcs, List.length_cons]; omega) hrest

theorem readsBack_arr (h : ∀ v ∈ items, Proper Lossless False v) (ih : ∀ v ∈ items, ReadsBack v) :
    ReadsBack (.arr items) := by
  refine .of_succ (opens_chars (.arr h)) fun fuel rest hfuel hrest => ?_
  cases items with
  | nil => rfl
  | cons v items =>
      have hopens : ∀ u ∈ v :: items, Opens (chars u) := fun u hu => opens_chars (h u hu)
      have hjoined : Opens ([','].intercalate ((v :: items).map chars)) :=
        (hopens v List.mem_cons_self).joined
      rw [chars_arr, List.length_cons, List.length_append, List.length_singleton] at hfuel
      rw [chars_arr, List.cons_append, List.append_assoc, List.singleton_append,
        value?_bracket hjoined.append,
        items?_chars ih hopens (List.cons_ne_nil v items) (by omega)]
      rfl

theorem readsBack_obj (h : ∀ m ∈ members, Proper Lossless False m.2)
    (ih : ∀ m ∈ members, ReadsBack m.2) : ReadsBack (.obj members) := by
  refine .of_succ (opens_chars (.obj h)) fun fuel rest hfuel hrest => ?_
  cases members with
  | nil => rfl
  | cons m members =>
      have hopens : ∀ n ∈ m :: members, Opens (chars n.2) := fun n hn => opens_chars (h n hn)
      have hjoined : Opens ([','].intercalate ((m :: members).map memberChars)) :=
        Opens.joined ⟨'"', _, rfl, rfl, by decide, by decide⟩
      rw [chars_obj, List.length_cons, List.length_append, List.length_singleton] at hfuel
      rw [chars_obj, List.cons_append, List.append_assoc, List.singleton_append,
        value?_brace hjoined.append]
      show members? fuel (([] : List (String × Json)).map fun m => (some m.1, m.2)) _ = _
      exact members?_chars ih hopens (List.cons_ne_nil m members) (by omega)

theorem readsBack_of_proper (h : Proper Lossless False v) : ReadsBack v := by
  induction h with
  | null => exact .of_succ (opens_chars .null) fun _ _ _ _ => rfl
  | bool b => exact .of_succ (opens_chars (.bool b)) fun _ _ _ _ => by cases b <;> rfl
  | int hn =>
      exact .of_succ (opens_chars (.int hn)) fun _ _ _ hrest =>
        value?_of_literal (literal_int hn) hrest
  | real hx =>
      exact .of_succ (opens_chars (.real hx)) fun _ _ _ hrest => value?_of_literal hx hrest
  | str s =>
      refine .of_succ (opens_chars (.str s)) fun fuel rest _ _ => ?_
      have hchars : chars (.str s) ++ rest =
          '"' :: (s.toList.flatMap escape ++ '"' :: rest) := by
        rw [chars, compact, toList_quoted, List.cons_append, List.append_assoc]
        rfl
      rw [hchars, value?, string?_quoted]
      rfl
  | arr h ih => exact readsBack_arr h ih
  | obj h ih => exact readsBack_obj h ih
  | unreadable h => exact h.elim

/-- A text that holds a value is read as that value. -/
theorem parse?_compact (h : Proper Lossless False v) : parse? (compact v) = some v := by
  obtain ⟨c, cs, hcs, hblank, -⟩ := opens_chars h
  have hread := readsBack_of_proper h (2 * (chars v).length + 2) [] (by omega) numberEnd_nil
  rw [List.append_nil] at hread
  have hskip : skipBlanks (chars v) = chars v := by rw [hcs, skipBlanks_cons hblank]
  show (value? (2 * (chars v).length + 2) (skipBlanks (chars v))).bind _ = _
  rw [hskip, hread]
  rfl

end Wellbore.Json
