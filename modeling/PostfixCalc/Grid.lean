/-!
# Grids

A matrix is given as a `Grid`, a list of rows. Nothing forces the rows of a
typed grid to have one length; `Shape` is the size of a grid that is a matrix.
-/

namespace PostfixCalc

/-- Rows of numbers, possibly of different lengths. -/
abbrev Grid := List (List Float)

/-- The numbers of rows and columns of a matrix. -/
structure Shape where
  rows : Nat
  columns : Nat
deriving DecidableEq, Repr

/-- How a shape is shown, as `2x3`. -/
def Shape.text (s : Shape) : String :=
  s!"{s.rows}x{s.columns}"

/-- The two operations on matrices. -/
inductive GridOperation where
  | add
  | multiply
deriving DecidableEq, Repr

/-- The name by which a request asks for the operation. -/
def GridOperation.name : GridOperation → String
  | add => "matrix_add"
  | multiply => "matrix_multiply"

end PostfixCalc
