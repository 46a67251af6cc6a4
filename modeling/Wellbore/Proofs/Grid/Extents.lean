import Mathlib.Data.Prod.Lex
import Wellbore.Proofs.Grid.Numbering

/-!
# The cells of a grid and the numbers below its size

Cells and numbers belong together one to one. A cell has a number exactly if it is in the grid, a
number has a cell exactly if it is below the size, and the one undoes the other. Of two cells the
one in the earlier layer has the smaller number, then the one in the earlier row, then the one
that stands earlier in the row: this is one lemma about a digit and what is written before it,
used for the rows of a layer and for the layers of the grid.

An extent may be zero. Then the size is zero too and no number is below it, so the divisions by a
row and by a layer are never come to. This holds of whatever size a machine makes of the extents:
it stops at a size that it does not hold or not at all, and if the extents fit it computes what
they say.
-/

namespace Wellbore

/-! ## Steps of a machine -/

namespace Word

variable {o : Overflow} {a b n : Nat}

theorem Overflow.word?_of_lt (h : n < UInt64.size) : o.word? n = some n := by
  cases o with
  | stops => exact if_pos h
  | wraps => exact congrArg some (Nat.mod_eq_of_lt h)

theorem add?_of_lt (h : a + b < UInt64.size) : add? o a b = some (a + b) := o.word?_of_lt h

theorem mul?_of_lt (h : a * b < UInt64.size) : mul? o a b = some (a * b) := o.word?_of_lt h

theorem zero_mul? : mul? o 0 b = some 0 := by
  rw [mul?_of_lt (by rw [Nat.zero_mul]; decide), Nat.zero_mul]

theorem div?_of_pos (h : 0 < b) : div? a b = some (a / b) := if_neg (Nat.ne_of_gt h)

theorem mod?_of_pos (h : 0 < b) : mod? a b = some (a % b) := if_neg (Nat.ne_of_gt h)

end Word

/-- The place of a cell in the grid: its layer counts most, then its row. -/
def Cell.place (c : Cell) : ℕ ×ₗ ℕ ×ₗ ℕ := toLex (c.k, toLex (c.j, c.i))

namespace GridDims

variable {d : GridDims} {o : Word.Overflow} {c c' : Cell} {n n' size : Nat}

/-- The cells of the grid have the numbers below its size, in order. -/
structure Numbered (d : GridDims) : Prop where
  index : ∀ c, (d.indexOf? c).isSome = true ↔ c.i < d.nx ∧ c.j < d.ny ∧ c.k < d.nz
  back : ∀ c n, d.indexOf? c = some n → n < d.size ∧ d.cellAt? n = some c
  cell : ∀ n, (d.cellAt? n).isSome = true ↔ n < d.size
  forth : ∀ n c, d.cellAt? n = some c → d.indexOf? c = some n
  ordered : ∀ c c' n n', d.indexOf? c = some n → d.indexOf? c' = some n' →
    (n < n' ↔ c.place < c'.place)

/-- No step of the three computations stops a machine, and none comes out wrong. -/
structure NeverStops (d : GridDims) : Prop where
  size : ∀ o, d.sizeInWords? o = some d.size
  index : ∀ o c, d.indexInWords? o c = some (d.indexOf? c)
  cell : ∀ o n, d.cellInWords? o n = some (d.cellAt? n)

/-! ## From a number to its cell -/

/-- A grid that has numbers has rows and layers. -/
theorem extents_pos (hn : n < d.size) : 0 < d.nx ∧ 0 < d.nx * d.ny := by
  have hlayer : 0 < d.nx * d.ny := Nat.pos_of_mul_pos_right (Nat.zero_lt_of_lt hn)
  exact ⟨Nat.pos_of_mul_pos_right hlayer, hlayer⟩

theorem cellAt?_eq_some : d.cellAt? n = some c ↔ n < d.size ∧
    ⟨n % (d.nx * d.ny) % d.nx, n % (d.nx * d.ny) / d.nx, n / (d.nx * d.ny)⟩ = c := by
  rw [cellAt?]
  split
  next hn => simp only [hn, true_and, Option.some.injEq]
  next hn => simp only [hn, false_and, reduceCtorEq]

theorem isSome_cellAt? : (d.cellAt? n).isSome = true ↔ n < d.size := by
  rw [cellAt?]
  split
  next hn => simp only [hn, Option.isSome_some]
  next hn => simp only [hn, Option.isSome_none, Bool.false_eq_true]

theorem isSome_indexOf? :
    (d.indexOf? c).isSome = true ↔ c.i < d.nx ∧ c.j < d.ny ∧ c.k < d.nz := by
  rw [indexOf?, ← contains_iff]
  split
  next hin => simp only [hin, Option.isSome_some]
  next hout => simp only [hout, Option.isSome_none]

/-- The digits of a number lie below the extents, and the number is written with them. -/
theorem indexOf?_of_cellAt? (h : d.cellAt? n = some c) : d.indexOf? c = some n := by
  obtain ⟨hn, rfl⟩ := cellAt?_eq_some.mp h
  obtain ⟨hrow, hlayer⟩ := extents_pos hn
  have hin : n % (d.nx * d.ny) < d.nx * d.ny := Nat.mod_lt n hlayer
  refine indexOf?_eq_some.mpr ⟨⟨?_, ?_, ?_⟩, ?_⟩
  · exact Nat.mod_lt _ hrow
  · exact Nat.div_lt_of_lt_mul hin
  · exact Nat.div_lt_of_lt_mul hn
  · rw [Nat.mul_assoc (n / _), Nat.mod_add_div' _ d.nx, Nat.mod_add_div' n]

/-! ## The order of the numbers -/

/-- Of two numbers with digits below `a` the one is smaller that has less before its digit, or
the same before a smaller digit. -/
theorem add_mul_lt_iff {r r' q q' a : Nat} (hr : r < a) (hr' : r' < a) :
    r + q * a < r' + q' * a ↔ q < q' ∨ q = q' ∧ r < r' := by
  rcases Nat.lt_trichotomy q q' with hlt | rfl | hgt
  · have hbelow : r + q * a < a * q' := add_mul_lt hr hlt
    rw [Nat.mul_comm a] at hbelow
    omega
  · omega
  · have hbelow : r' + q' * a < a * q := add_mul_lt hr' hgt
    rw [Nat.mul_comm a] at hbelow
    omega

theorem lt_iff_place_lt (h : d.indexOf? c = some n) (h' : d.indexOf? c' = some n') :
    n < n' ↔ c.place < c'.place := by
  obtain ⟨⟨hi, hj, -⟩, rfl⟩ := indexOf?_eq_some.mp h
  obtain ⟨⟨hi', hj', -⟩, rfl⟩ := indexOf?_eq_some.mp h'
  have hlayer : c.i + c.j * d.nx < d.nx * d.ny := add_mul_lt hi hj
  have hlayer' : c'.i + c'.j * d.nx < d.nx * d.ny := add_mul_lt hi' hj'
  rw [Nat.mul_assoc c.k, Nat.mul_assoc c'.k, add_mul_lt_iff hlayer hlayer', add_mul_lt_iff hi hi',
    Cell.place, Cell.place, Prod.Lex.toLex_lt_toLex, Prod.Lex.toLex_lt_toLex]

theorem numbered (d : GridDims) : d.Numbered where
  index _ := isSome_indexOf?
  back _ _ := cellAt?_of_indexOf?
  cell _ := isSome_cellAt?
  forth _ _ := indexOf?_of_cellAt?
  ordered _ _ _ _ := lt_iff_place_lt

/-! ## On a machine -/

/-- Every number on the way to the number of a cell is at most that number. -/
theorem indexInWords?_eq (hsize : d.size < UInt64.size) (c : Cell) :
    d.indexInWords? o c = some (d.indexOf? c) := by
  rw [indexInWords?]
  cases hindex : d.indexOf? c with
  | none =>
      have hout : ¬ d.contains c = true := by
        rw [contains_iff, ← isSome_indexOf?, hindex]
        exact Bool.false_ne_true
      rw [if_neg hout]
  | some n =>
      obtain ⟨hin, hn⟩ := indexOf?_eq_some.mp hindex
      have hlt : n < UInt64.size := Nat.lt_trans (cellAt?_of_indexOf? hindex).1 hsize
      have hlayers : c.k * d.nx ≤ c.k * d.nx * d.ny :=
        Nat.le_mul_of_pos_right _ (Nat.zero_lt_of_lt hin.2.1)
      have hrows : Word.mul? o c.j d.nx = some (c.j * d.nx) := Word.mul?_of_lt (by omega)
      have hinLayer : Word.add? o c.i (c.j * d.nx) = some (c.i + c.j * d.nx) :=
        Word.add?_of_lt (by omega)
      have hwide : Word.mul? o c.k d.nx = some (c.k * d.nx) := Word.mul?_of_lt (by omega)
      have hbelow : Word.mul? o (c.k * d.nx) d.ny = some (c.k * d.nx * d.ny) :=
        Word.mul?_of_lt (by omega)
      have hsum : Word.add? o (c.i + c.j * d.nx) (c.k * d.nx * d.ny) = some n :=
        hn ▸ Word.add?_of_lt (by omega)
      rw [if_pos (contains_iff.mpr hin)]
      simp only [hrows, hinLayer, hwide, hbelow, hsum, Option.bind_eq_bind, Option.bind_some,
        Option.pure_def]

theorem sizeInWords?_eq (hlayer : d.nx * d.ny < UInt64.size) (hsize : d.size < UInt64.size) :
    d.sizeInWords? o = some d.size := by
  rw [sizeInWords?, Word.mul?_of_lt hlayer]
  exact Word.mul?_of_lt hsize

theorem cellInWords?_eq (hlayer : d.nx * d.ny < UInt64.size) (hsize : d.size < UInt64.size)
    (n : Nat) : d.cellInWords? o n = some (d.cellAt? n) := by
  rw [cellInWords?, cellAt?, sizeInWords?_eq hlayer hsize]
  simp only [Option.bind_eq_bind, Option.bind_some, Option.pure_def]
  split
  next hn =>
    obtain ⟨hrow, hpos⟩ := extents_pos hn
    simp only [Word.mul?_of_lt hlayer, Word.div?_of_pos hpos, Word.mod?_of_pos hpos,
      Word.div?_of_pos hrow, Word.mod?_of_pos hrow, Option.bind_some]
  next => rfl

theorem sizeInWords?_eq_none : d.sizeInWords? o = none ↔
    o = .stops ∧ (UInt64.size ≤ d.nx * d.ny ∨ UInt64.size ≤ d.size) := by
  cases o with
  | wraps => exact iff_of_false (Option.some_ne_none _) (fun h => nomatch h.1)
  | stops =>
      rw [eq_self_iff_true, true_and]
      by_cases hlayer : d.nx * d.ny < UInt64.size
      · rw [sizeInWords?, Word.mul?_of_lt hlayer]
        by_cases hsize : d.size < UInt64.size
        · rw [Option.bind_eq_bind, Option.bind_some, Word.mul?_of_lt hsize]
          exact iff_of_false (Option.some_ne_none _) (by omega)
        · exact iff_of_true (if_neg hsize) (.inr (Nat.le_of_not_lt hsize))
      · refine iff_of_true ?_ (.inl (Nat.le_of_not_lt hlayer))
        rw [sizeInWords?, Word.mul?, Word.Overflow.word?, Word.unsigned64?, if_neg hlayer]
        rfl

/-- A machine that has a size for the grid has the cells of the numbers below it. No extent is zero
then, also where the low bits are all that is left of the size. -/
theorem cellInWords?_of_size (hsize : d.sizeInWords? o = some size) :
    ∃ cellOf : Nat → Option Cell, (∀ n, d.cellInWords? o n = some (cellOf n)) ∧
      ∀ n, (cellOf n).isSome = decide (n < size) := by
  obtain ⟨layer, hlayer, hlayers⟩ := Option.bind_eq_some_iff.mp hsize
  have hcell : ∀ n, ∃ c, d.cellInWords? o n = some c ∧ c.isSome = decide (n < size) := by
    intro n
    rw [cellInWords?, hsize]
    simp only [Option.bind_eq_bind, Option.bind_some, Option.pure_def, hlayer]
    split
    next hn =>
      have hpos : 0 < layer := by
        rw [Nat.pos_iff_ne_zero]
        rintro rfl
        rw [Word.zero_mul?, Option.some.injEq] at hlayers
        omega
      have hrow : 0 < d.nx := by
        rw [Nat.pos_iff_ne_zero]
        intro hzero
        rw [hzero, Word.zero_mul?, Option.some.injEq] at hlayer
        omega
      simp only [Word.div?_of_pos hpos, Word.mod?_of_pos hpos, Word.div?_of_pos hrow,
        Word.mod?_of_pos hrow, Option.bind_some]
      exact ⟨_, rfl, (decide_eq_true hn).symm⟩
    next hn => exact ⟨none, rfl, (decide_eq_false hn).symm⟩
  choose cellOf hcellOf using hcell
  exact ⟨cellOf, fun n => (hcellOf n).1, fun n => (hcellOf n).2⟩

theorem cellInWords?_of_stops (hsize : d.sizeInWords? o = none) (n : Nat) :
    d.cellInWords? o n = none := by
  rw [cellInWords?, hsize]
  rfl

/-- The cells are numbered one to one and in order. If a word holds the size of the grid, and of a
layer, then a machine computes all this without stopping, so it never divides by zero. -/
theorem numbered_in_words (hlayer : d.nx * d.ny < UInt64.size) (hsize : d.size < UInt64.size) :
    d.Numbered ∧ d.NeverStops :=
  ⟨numbered d, fun _ => sizeInWords?_eq hlayer hsize, fun _ => indexInWords?_eq hsize,
    fun _ => cellInWords?_eq hlayer hsize⟩

/-- As many cells as a word counts. -/
def largest : GridDims := .ofExtents 4294967295 4294967297 1

theorem numbered_in_words_largest :
    largest.nx * largest.ny < UInt64.size ∧ largest.size < UInt64.size ∧
      (largest.Numbered ∧ largest.NeverStops) ∧
      largest.cellAt? 18446744073709551614 = some ⟨4294967294, 4294967296, 0⟩ := by
  have hlayer : largest.nx * largest.ny < UInt64.size := by decide +kernel
  have hsize : largest.size < UInt64.size := by decide +kernel
  exact ⟨hlayer, hsize, numbered_in_words hlayer hsize, by decide +kernel⟩

/-- A row without cells is not divided by. -/
example : (ofExtents 0 5 7).cellInWords? .stops 0 = some none := by decide

end GridDims

end Wellbore
