import Mathlib.Tactic
import PostfixCalc.Grid.Arithmetic
import PostfixCalc.Proofs.Outcome

/-!
# Operations on matrices, cell by cell

A grid is a matrix or has a defect, and only one of its defects is reported: a
grid without cells first, then the first row of another length. The operations
are specified by the cells of their operands. A cell outside the grid is no
number, so a cell of the result that is one has been computed from cells that
are there.

Results:
* `Grid.shape?_eq_error_iff`: the defect that is reported.
* `Grid.cell?_addCells`, `Grid.cell?_multiplyCells`: the cells of a sum and of a
  product.
* `GridOperation.apply_exact`: when an operation has a result, which one, and
  what is wrong otherwise.
-/

namespace PostfixCalc

namespace Grid

/-! ## Matrices and defects -/

/-- A grid with cells whose rows all have the same length. -/
structure IsMatrix (g : Grid) (s : Shape) : Prop where
  rows : g.length = s.rows
  columns : ∀ row ∈ g, row.length = s.columns
  rows_pos : 0 < s.rows
  columns_pos : 0 < s.columns

/-- What is wrong with a grid: there is no row or the first one is empty, or
    else a row, counted from 1, is the first one whose length is not that of
    the first row. -/
inductive Defect (g : Grid) : ShapeError → Prop
  | empty : g = [] ∨ g.head? = some [] → Defect g .empty
  | ragged {first row : List Float} {i : ℕ} : g.head? = some first → first ≠ [] →
      g[i]? = some row → row.length ≠ first.length →
      (∀ j < i, ∀ earlier, g[j]? = some earlier → earlier.length = first.length) →
      Defect g (.ragged (i + 1) first.length row.length)

theorem shape?_eq_ok_iff_isMatrix {g : Grid} {s : Shape} : shape? g = .ok s ↔ g.IsMatrix s := by
  rw [shape?_eq_ok_iff]
  constructor
  · rintro ⟨hrows, hhead, hpos, hall⟩
    refine ⟨hrows.symm, hall, ?_, hpos⟩
    rw [hrows, List.length_pos_iff]
    rintro rfl
    cases hhead
  · rintro ⟨hrows, hall, hrows_pos, hpos⟩
    refine ⟨hrows.symm, ?_, hpos, hall⟩
    obtain ⟨first, rest, rfl⟩ := List.exists_cons_of_length_pos (hrows ▸ hrows_pos)
    rw [List.head?_cons, Option.map_some, hall first (List.mem_cons_self ..)]

/-- The first row of another width is reported, with its number. -/
theorem checkWidths_eq_error_iff {width number : ℕ} {g : Grid} {e : ShapeError} :
    checkWidths width number g = .error e ↔
      ∃ i row, g[i]? = some row ∧ row.length ≠ width ∧
        (∀ j < i, ∀ earlier, g[j]? = some earlier → earlier.length = width) ∧
        e = .ragged (number + i) width row.length := by
  induction g generalizing number with
  | nil => simp [checkWidths]
  | cons first rest ih =>
    rw [checkWidths]
    split_ifs with hwidth
    · rw [ih]
      constructor
      · rintro ⟨i, row, hrow, hne, hbefore, rfl⟩
        refine ⟨i + 1, row, hrow, hne, ?_, by congr 1; omega⟩
        rintro (_ | j) hj earlier hearlier
        · obtain rfl := Option.some.inj hearlier
          exact hwidth
        · exact hbefore j (by omega) earlier hearlier
      · rintro ⟨_ | i, row, hrow, hne, hbefore, rfl⟩
        · obtain rfl := Option.some.inj hrow
          exact absurd hwidth hne
        · refine ⟨i, row, hrow, hne, fun j hj => hbefore (j + 1) (by omega), by congr 1; omega⟩
    · constructor
      · intro h
        obtain rfl := Except.error.inj h
        exact ⟨0, first, rfl, hwidth, by simp, rfl⟩
      · rintro ⟨_ | i, row, hrow, hne, hbefore, rfl⟩
        · obtain rfl := Option.some.inj hrow
          rfl
        · exact absurd (hbefore 0 (by omega) first rfl) hwidth

/-- The defect of a grid is reported, and nothing else is. -/
theorem shape?_eq_error_iff {g : Grid} {e : ShapeError} : shape? g = .error e ↔ g.Defect e := by
  rcases g with _ | ⟨_ | ⟨x, first⟩, rest⟩
  · constructor
    · intro h
      obtain rfl := Except.error.inj h
      exact .empty (.inl rfl)
    · intro h
      cases h with
      | empty _ => rfl
      | ragged hhead => cases hhead
  · constructor
    · intro h
      obtain rfl := Except.error.inj h
      exact .empty (.inr rfl)
    · intro h
      cases h with
      | empty _ => rfl
      | ragged hhead hne => exact absurd (Option.some.inj hhead).symm hne
  · have hshape : shape? ((x :: first) :: rest) = .error e ↔
        checkWidths (x :: first).length 2 rest = .error e := map_eq_error_iff
    rw [hshape, checkWidths_eq_error_iff]
    constructor
    · rintro ⟨i, row, hrow, hne, hbefore, rfl⟩
      rw [show 2 + i = i + 1 + 1 by omega]
      refine .ragged rfl (List.cons_ne_nil _ _) hrow hne ?_
      rintro (_ | j) hj earlier hearlier
      · rw [Option.some.inj hearlier]
      · exact hbefore j (by omega) earlier hearlier
    · intro h
      cases h with
      | empty hempty => simp at hempty
      | @ragged _ row i hhead _ hrow hne hbefore =>
        obtain rfl := Option.some.inj hhead
        rcases i with _ | i
        · exact absurd (congrArg List.length (Option.some.inj hrow).symm) hne
        · exact ⟨i, row, hrow, hne, fun j hj => hbefore (j + 1) (by omega), by congr 1; omega⟩

/-- A grid is a matrix or has a defect. -/
theorem exists_defect_or_isMatrix (g : Grid) : (∃ e, g.Defect e) ∨ ∃ s, g.IsMatrix s := by
  cases hshape : shape? g with
  | error e => exact .inl ⟨e, shape?_eq_error_iff.mp hshape⟩
  | ok s => exact .inr ⟨s, shape?_eq_ok_iff_isMatrix.mp hshape⟩

/-! ## Cells -/

/-- The cell in row `i` and column `j`, both counted from 0, if it is there. -/
def cell? (g : Grid) (i j : ℕ) : Option Float := g[i]?.bind (·[j]?)

/-- The sum of `a[i][k] * b[k][j]` over `k < n`, from zero and in the order of
    `k`; there is none if one of the cells is not there. -/
def productCell? (a b : Grid) (n i j : ℕ) : Option Float :=
  (List.range n).foldlM (fun sum k => do return sum + (← a.cell? i k) * (← b.cell? k j)) 0

variable {a b : Grid} {s t : Shape} {i j : ℕ}

theorem cell?_of_row {g : Grid} {row : List Float} (h : g[i]? = some row) :
    g.cell? i j = row[j]? := by
  rw [cell?, h, Option.bind_some]

theorem IsMatrix.exists_row (h : a.IsMatrix s) (hi : i < s.rows) :
    ∃ row, a[i]? = some row ∧ row.length = s.columns := by
  rw [← h.rows] at hi
  exact ⟨a[i], List.getElem?_eq_getElem hi, h.columns _ (List.getElem_mem hi)⟩

/-! ### The sum -/

theorem isMatrix_addCells (ha : a.IsMatrix s) (hb : b.IsMatrix s) : (addCells a b).IsMatrix s := by
  refine ⟨?_, ?_, ha.rows_pos, ha.columns_pos⟩
  · rw [addCells, List.length_zipWith, ha.rows, hb.rows, Nat.min_self]
  · intro row hrow
    obtain ⟨k, hk, rfl⟩ := List.mem_iff_getElem.mp hrow
    rw [addCells, List.length_zipWith, lt_min_iff] at hk
    have hx := ha.columns _ (List.getElem_mem hk.1)
    have hy := hb.columns _ (List.getElem_mem hk.2)
    simp only [addCells, List.getElem_zipWith, List.length_zipWith, hx, hy, Nat.min_self]

/-- Each cell of a sum is the sum of the cells in the same place. -/
theorem cell?_addCells (ha : a.IsMatrix s) (hb : b.IsMatrix s) (hi : i < s.rows)
    (hj : j < s.columns) :
    ∃ x y, a.cell? i j = some x ∧ b.cell? i j = some y ∧
      (addCells a b).cell? i j = some (x + y) := by
  obtain ⟨row, hrow, hlen⟩ := ha.exists_row hi
  obtain ⟨row', hrow', hlen'⟩ := hb.exists_row hi
  have hsum : (addCells a b)[i]? = some (List.zipWith (· + ·) row row') := by
    simp [addCells, List.getElem?_zipWith, hrow, hrow']
  rw [cell?_of_row hrow, cell?_of_row hrow', cell?_of_row hsum,
    List.getElem?_eq_getElem (hlen ▸ hj), List.getElem?_eq_getElem (hlen' ▸ hj)]
  exact ⟨_, _, rfl, rfl, by simp [hlen, hlen', hj]⟩

/-! ### The product -/

theorem foldlM_eq_foldl {α β : Type} {f : β → α → Option β} {g : β → α → β} {l : List α}
    (h : ∀ x ∈ l, ∀ y, f y x = some (g y x)) (start : β) :
    l.foldlM f start = some (l.foldl g start) := by
  induction l generalizing start with
  | nil => rfl
  | cons x l ih =>
    rw [List.foldlM_cons, h x (List.mem_cons_self ..) start, List.foldl_cons]
    exact ih (fun y hy => h y (List.mem_cons_of_mem _ hy)) (g start x)

theorem dot_eq_foldl_range {xs ys : List Float} {n : ℕ} (hx : xs.length = n) (hy : ys.length = n) :
    dot xs ys = (List.range n).foldl (fun sum k => sum + xs.getD k 0 * ys.getD k 0) 0 := by
  have hproducts : List.zipWith (· * ·) xs ys =
      (List.range n).map fun k => xs.getD k 0 * ys.getD k 0 := by
    apply List.ext_getElem
    · simp [hx, hy]
    · intro k hk _
      rw [List.length_zipWith, lt_min_iff] at hk
      simp [List.getElem?_eq_getElem hk.1, List.getElem?_eq_getElem hk.2]
  rw [dot, hproducts, List.foldl_map]

/-- Where all cells are there, the sum over the indices is the product of the
    row and the column. -/
theorem productCell?_eq_dot {row : List Float} {n : ℕ} (hrow : a[i]? = some row)
    (hlen : row.length = n) (hb : b.length = n) (hcolumn : ∀ other ∈ b, j < other.length) :
    productCell? a b n i j = some (dot row (b.column j)) := by
  rw [dot_eq_foldl_range hlen (by rw [column, List.length_map, hb])]
  refine foldlM_eq_foldl ?_ 0
  intro k hk sum
  rw [List.mem_range] at hk
  have hka : k < row.length := by omega
  have hkb : k < b.length := by omega
  have hj := hcolumn _ (List.getElem_mem hkb)
  have hx : a.cell? i k = some (row.getD k 0) := by
    rw [cell?_of_row hrow]
    simp [hka]
  have hy : b.cell? k j = some ((b.column j).getD k 0) := by
    rw [cell?_of_row (List.getElem?_eq_getElem hkb), List.getElem?_eq_getElem hj]
    simp [column, hkb, hj]
  rw [hx, hy]
  rfl

theorem isMatrix_multiplyCells (ha : a.IsMatrix s) (hb : b.IsMatrix t) :
    (multiplyCells a b t.columns).IsMatrix ⟨s.rows, t.columns⟩ := by
  refine ⟨?_, ?_, ha.rows_pos, hb.columns_pos⟩
  · rw [multiplyCells, List.length_map, ha.rows]
  · intro row hrow
    obtain ⟨_, _, rfl⟩ := List.mem_map.mp hrow
    simp

/-- Each cell of a product is the sum over a row and a column, all of whose
    cells are there. -/
theorem cell?_multiplyCells (ha : a.IsMatrix s) (hb : b.IsMatrix t) (hfit : s.columns = t.rows)
    (hi : i < s.rows) (hj : j < t.columns) :
    ∃ x, productCell? a b s.columns i j = some x ∧
      (multiplyCells a b t.columns).cell? i j = some x := by
  obtain ⟨row, hrow, hlen⟩ := ha.exists_row hi
  have hresult : (multiplyCells a b t.columns)[i]? =
      some (((List.range t.columns).map b.column).map (dot row)) := by
    rw [multiplyCells, List.getElem?_map, hrow]
    rfl
  refine ⟨dot row (b.column j), ?_, ?_⟩
  · exact productCell?_eq_dot hrow hlen (by rw [hb.rows, hfit])
      fun other hother => by rw [hb.columns other hother]; exact hj
  · rw [cell?_of_row hresult]
    simp [hj]

end Grid

/-! ## The operations -/

namespace GridOperation

open Grid

theorem apply_of_defect_left {a b : Grid} {e : ShapeError} (operation : GridOperation)
    (h : a.Defect e) : operation.apply a b = .error e := by
  rw [apply, shape?_eq_error_iff.mpr h]
  rfl

theorem apply_of_defect_right {a b : Grid} {left : Shape} {e : ShapeError}
    (operation : GridOperation) (ha : a.IsMatrix left) (h : b.Defect e) :
    operation.apply a b = .error e := by
  rw [apply, shape?_eq_ok_iff_isMatrix.mpr ha, shape?_eq_error_iff.mpr h]
  rfl

theorem apply_of_isMatrix {a b : Grid} {left right : Shape} (operation : GridOperation)
    (ha : a.IsMatrix left) (hb : b.IsMatrix right) :
    operation.apply a b =
      if operation.fits left right then .ok (operation.cells a b right)
      else .error (.incompatible operation left right) := by
  rw [apply, shape?_eq_ok_iff_isMatrix.mpr ha, shape?_eq_ok_iff_isMatrix.mpr hb]
  rfl

/-- **The operations on any two grids.** A defect of the left grid is reported,
    or else one of the right grid. Two matrices are added if their shapes are
    equal, and multiplied if the left one has as many columns as the right one
    has rows; if not, both shapes are reported. The result is a matrix, and its
    cells are computed from cells that are there. -/
theorem apply_exact (a b : Grid) :
    (∀ operation e, a.Defect e → apply operation a b = .error e) ∧
    (∀ operation left e, a.IsMatrix left → b.Defect e → apply operation a b = .error e) ∧
    ((∃ e, a.Defect e) ∨ (∃ left e, a.IsMatrix left ∧ b.Defect e) ∨
      ∃ left right, a.IsMatrix left ∧ b.IsMatrix right) ∧
    ∀ left right, a.IsMatrix left → b.IsMatrix right →
      (left ≠ right → add.apply a b = .error (.incompatible .add left right)) ∧
      (left = right → ∃ c, add.apply a b = .ok c ∧ c.shape? = .ok left ∧ c.IsMatrix left ∧
        ∀ i < left.rows, ∀ j < left.columns, ∃ x y, a.cell? i j = some x ∧ b.cell? i j = some y ∧
          c.cell? i j = some (x + y)) ∧
      (left.columns ≠ right.rows →
        multiply.apply a b = .error (.incompatible .multiply left right)) ∧
      (left.columns = right.rows → ∃ c, multiply.apply a b = .ok c ∧
        c.shape? = .ok ⟨left.rows, right.columns⟩ ∧ c.IsMatrix ⟨left.rows, right.columns⟩ ∧
        ∀ i < left.rows, ∀ j < right.columns, ∃ x,
          productCell? a b left.columns i j = some x ∧ c.cell? i j = some x) := by
  refine ⟨fun operation e h => apply_of_defect_left operation h,
    fun operation left e ha h => apply_of_defect_right operation ha h, ?_, ?_⟩
  · rcases exists_defect_or_isMatrix a with ha | ⟨left, ha⟩
    · exact .inl ha
    · rcases exists_defect_or_isMatrix b with ⟨e, hb⟩ | ⟨right, hb⟩
      · exact .inr (.inl ⟨left, e, ha, hb⟩)
      · exact .inr (.inr ⟨left, right, ha, hb⟩)
  · intro left right ha hb
    refine ⟨fun hne => ?_, ?_, fun hne => ?_, fun hfit => ?_⟩
    · rw [apply_of_isMatrix .add ha hb, if_neg]
      simpa [fits] using hne
    · rintro rfl
      have hc := isMatrix_addCells ha hb
      refine ⟨addCells a b, ?_, shape?_eq_ok_iff_isMatrix.mpr hc, hc,
        fun i hi j hj => cell?_addCells ha hb hi hj⟩
      rw [apply_of_isMatrix .add ha hb, if_pos (by simp [fits])]
      rfl
    · rw [apply_of_isMatrix .multiply ha hb, if_neg]
      simpa [fits] using hne
    · have hc := isMatrix_multiplyCells ha hb
      refine ⟨multiplyCells a b right.columns, ?_, shape?_eq_ok_iff_isMatrix.mpr hc, hc,
        fun i hi j hj => cell?_multiplyCells ha hb hfit hi hj⟩
      rw [apply_of_isMatrix .multiply ha hb, if_pos (by simpa [fits] using hfit)]
      rfl

/-- A row that is too long, an empty grid on the right, and the product of a row
    and a column. -/
theorem apply_exact_samples :
    add.apply [[1, 2], [3, 4, 5]] [] = .error (.ragged 2 2 3) ∧
    multiply.apply [[1, 2]] [] = .error .empty ∧
    ∃ c, multiply.apply [[1, 2]] [[3], [4]] = .ok c ∧ c.shape? = .ok ⟨1, 1⟩ ∧
      ∃ x, productCell? [[1, 2]] [[3], [4]] 2 0 0 = some x ∧ c.cell? 0 0 = some x := by
  have hragged : Defect [[1, 2], [3, 4, 5]] (.ragged 2 2 3) :=
    shape?_eq_error_iff.mp rfl
  have hrow : IsMatrix [[1, 2]] ⟨1, 2⟩ := shape?_eq_ok_iff_isMatrix.mp rfl
  have hcolumn : IsMatrix [[3], [4]] ⟨2, 1⟩ := shape?_eq_ok_iff_isMatrix.mp rfl
  refine ⟨(apply_exact _ []).1 .add _ hragged,
    (apply_exact [[1, 2]] []).2.1 .multiply _ _ hrow (.empty (.inl rfl)), ?_⟩
  obtain ⟨-, -, -, hproduct⟩ := (apply_exact _ _).2.2.2 _ _ hrow hcolumn
  obtain ⟨c, hc, hshape, -, hcells⟩ := hproduct rfl
  exact ⟨c, hc, hshape, hcells 0 Nat.one_pos 0 Nat.one_pos⟩

end GridOperation

end PostfixCalc
