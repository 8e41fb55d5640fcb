import PostfixCalc.Error
import PostfixCalc.Registry

/-!
# Operations on matrices

A grid is a matrix if its first row is there and not empty and all rows are as
long as the first. Both operations check the left grid, then the right one, then
whether the shapes fit.

Results:
* `shape?_eq_ok_iff`: the shape of a grid, if it has one.
-/

namespace PostfixCalc

namespace Grid

/-! ## Shape -/

/-- Checks that each row has `width` cells; the first one is row `number`. -/
def checkWidths (width : Nat) (number : Nat) : Grid → Except ShapeError Unit
  | [] => .ok ()
  | row :: rest =>
    if row.length = width then checkWidths width (number + 1) rest
    else .error (.ragged number width row.length)

/-- The shape of a matrix, or the first defect of a grid that is none. -/
def shape? (g : Grid) : Except ShapeError Shape :=
  match g with
  | [] | [] :: _ => .error .empty
  | first :: rest => (checkWidths first.length 2 rest).map fun _ => ⟨g.length, first.length⟩

theorem checkWidths_eq_ok_iff {width number : Nat} {g : Grid} :
    checkWidths width number g = .ok () ↔ ∀ row ∈ g, row.length = width := by
  induction g generalizing number with
  | nil => simp [checkWidths]
  | cons row rest ih =>
    rw [checkWidths]
    split
    · next h => simp [ih, h]
    · next h => simp [h]

/-- A grid is a matrix exactly if it has a cell and all its rows have the length of the first. -/
theorem shape?_eq_ok_iff {g : Grid} {s : Shape} :
    shape? g = .ok s ↔
      s.rows = g.length ∧ g.head?.map List.length = some s.columns ∧ 0 < s.columns ∧
        ∀ row ∈ g, row.length = s.columns := by
  obtain ⟨rows, columns⟩ := s
  rcases g with _ | ⟨_ | ⟨x, first⟩, rest⟩
  · simp [shape?]
  · simp [shape?]
    omega
  · cases hc : checkWidths (x :: first).length 2 rest with
    | error e =>
      have hne : ¬ ∀ row ∈ rest, row.length = (x :: first).length := by
        rw [← @checkWidths_eq_ok_iff _ 2, hc]
        simp
      simp only [shape?, hc, Except.map, reduceCtorEq, false_iff]
      rintro ⟨-, hcol, -, hall⟩
      have hcol : (x :: first).length = columns := by simpa using hcol
      exact hne fun row hrow => by rw [hall row (List.mem_cons_of_mem _ hrow), hcol]
    | ok u =>
      have hall := checkWidths_eq_ok_iff.1 hc
      simp only [shape?, hc, Except.map]
      simp
      constructor
      · rintro ⟨rfl, rfl⟩
        exact ⟨rfl, rfl, Nat.succ_pos _, rfl, fun row hrow => by simp [hall row hrow]⟩
      · rintro ⟨rfl, rfl, -⟩
        exact ⟨rfl, rfl⟩

/-! ## Sum and product -/

/-- Adds cell by cell. -/
def addCells (a b : Grid) : Grid :=
  List.zipWith (List.zipWith (· + ·)) a b

/-- The sum of the products of two lists, from zero and from left to right. -/
def dot (xs ys : List Float) : Float :=
  (List.zipWith (· * ·) xs ys).foldl (· + ·) 0

/-- The cells of column `j`, from top to bottom. -/
def column (g : Grid) (j : Nat) : List Float :=
  g.map (·.getD j 0)

/-- The product of `a` and `b`, where `b` has the given number of columns. -/
def multiplyCells (a b : Grid) (columns : Nat) : Grid :=
  let columnsOf := (List.range columns).map b.column
  a.map fun row => columnsOf.map (dot row)

end Grid

namespace GridOperation

/-- Whether the shapes of two operands fit. -/
def fits : GridOperation → Shape → Shape → Bool
  | add, left, right => left == right
  | multiply, left, right => left.columns == right.rows

/-- The cells of the result, for operands that fit. -/
def cells (operation : GridOperation) (a b : Grid) (right : Shape) : Grid :=
  match operation with
  | add => Grid.addCells a b
  | multiply => Grid.multiplyCells a b right.columns

/-- The sum or product of two grids, or what is wrong with them. -/
def apply (operation : GridOperation) (a b : Grid) : Except ShapeError Grid := do
  let left ← a.shape?
  let right ← b.shape?
  if operation.fits left right then return operation.cells a b right
  else throw (.incompatible operation left right)

/-- The operation known by `key`: a symbol or its name. -/
def resolve (key : String) : Except CalcError GridOperation :=
  let normal := normalizeKey key
  if normal = "+" ∨ normal = add.name then .ok add
  else if normal = "*" ∨ normal = multiply.name then .ok multiply
  else .error (.unsupported key)

end GridOperation

end PostfixCalc
