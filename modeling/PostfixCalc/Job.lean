import PostfixCalc.Expression
import PostfixCalc.Grid.Arithmetic
import PostfixCalc.Grid.Text
import PostfixCalc.Request

/-!
# Jobs

The calculator does three kinds of work: it folds an operation over a list of
numbers, evaluates an expression, or combines two matrices. A request is for the
first of expression, matrices and numbers that it has the data for.

Results:
* `reduce_nil`, `reduce_singleton`: the operation must be known even if it is
  not applied.
* `reduce_ok_or_divisionByZero`: if it is known, only a division by zero can
  fail.
-/

namespace PostfixCalc

/-- A computation to be done. -/
inductive Job where
  | reduce (operation : String) (operands : List Float)
  | expression (text : String)
  | combine (operation : String) (a b : Grid)

/-- The result of a computation. -/
inductive Answer where
  | scalar (x : Float)
  | grid (g : Grid)

/-- How a result is shown. -/
def Answer.text : Answer → String
  | scalar x => Scalar.text x
  | grid g => g.text

/-- Applies the operation known by `key` from left to right: to the first two
    operands, then to the result and the next one. No operand at all gives zero. -/
def reduce (r : Registry) (key : String) (operands : List Float) : Except CalcError Float := do
  let operation ← r.resolve key
  match operands with
  | [] => return 0
  | first :: rest => (rest.foldlM operation first).mapError .arithmetic

theorem reduce_nil (r : Registry) (key : String) :
    reduce r key [] = (r.resolve key).map fun _ => 0 := by
  unfold reduce
  cases r.resolve key <;> rfl

theorem reduce_singleton (r : Registry) (key : String) (x : Float) :
    reduce r key [x] = (r.resolve key).map fun _ => x := by
  unfold reduce
  cases r.resolve key <;> rfl

theorem reduce_cons {r : Registry} {key : String} {operation : Operation}
    (h : r.resolve key = .ok operation) (first : Float) (rest : List Float) :
    reduce r key (first :: rest) = (rest.foldlM operation first).mapError .arithmetic := by
  rw [reduce, h]
  rfl

/-- With a known operation, a list has a value or divides by zero. -/
theorem reduce_ok_or_divisionByZero {r : Registry} {key : String} {operation : Operation}
    (h : r.resolve key = .ok operation) (operands : List Float) :
    (∃ x, reduce r key operands = .ok x) ∨
      reduce r key operands = .error (.arithmetic .divisionByZero) := by
  cases operands with
  | nil => exact .inl ⟨0, by rw [reduce_nil, h]; rfl⟩
  | cons first rest =>
    rw [reduce_cons h]
    cases rest.foldlM operation first with
    | ok x => exact .inl ⟨x, rfl⟩
    | error e => cases e; exact .inr rfl

namespace Job

/-- The job that a request is for. -/
def ofRequest (q : Request) : Except CalcError Job :=
  match q with
  | { expression := some text, .. } => .ok (expression text)
  | { operation, matrixA := some a, matrixB := some b, .. } =>
    match operation with
    | some operation => .ok (combine operation a b)
    | none => .error (.request (.noOperation "matrices"))
  | { operation, numbers := some operands, .. } =>
    match operation with
    | some operation => .ok (reduce operation operands)
    | none => .error (.request (.noOperation "nombres"))
  | _ => .error (.request .noOperands)

/-- The result of a job, with the operations of `r`. Matrices have operations of their own. -/
def runWith (r : Registry) : Job → Except CalcError Answer
  | reduce operation operands => (PostfixCalc.reduce r operation operands).map .scalar
  | expression text => (Expression.evaluateWith r text).map .scalar
  | combine operation a b => do
    let operation ← GridOperation.resolve operation
    return .grid (← (operation.apply a b).mapError .shape)

/-- The result of a job, with the four operations. -/
def run (job : Job) : Except CalcError Answer :=
  job.runWith .standard

end Job

end PostfixCalc
