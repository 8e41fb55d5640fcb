import PostfixCalc.Postfix.Machine

/-!
# Syntax trees

An expression without its layout: literals, negations and operators with two
operands. A tree has a value of its own, found by recursion, and it has a
postfix program, its nodes in postorder. The two agree on the stack machine,
errors included.

Results:
* `run_program`: the program of a tree puts its value on the stack and touches
  nothing below.
* `evaluate_program`: the value of the program is the value of the tree.
-/

namespace PostfixCalc

/-- An expression as a tree. -/
inductive Tree where
  | num (literal : String)
  | neg (operand : Tree)
  | bin (symbol : Char) (left right : Tree)
deriving DecidableEq, Repr

namespace Tree

/-- The nodes in postorder: operands before their operator. -/
def program : Tree → List Token
  | num literal => [.num literal]
  | neg operand => operand.program ++ [.neg]
  | bin symbol left right => left.program ++ right.program ++ [.op symbol]

/-- The value of a tree with the operations of `r`: the left operand comes
    before the right one, and the operation is looked up after both. The first
    error counts. -/
def evaluate (r : Registry) : Tree → Except CalcError Float
  | num literal =>
    match Scalar.read? literal with
    | some x => .ok x
    | none => .error (.machine (.invalidNumber literal))
  | neg operand => (operand.evaluate r).map (-·)
  | bin symbol left right => do
    let a ← left.evaluate r
    let b ← right.evaluate r
    let operation ← r.resolve (String.singleton symbol)
    (operation a b).mapError .arithmetic

end Tree

namespace Machine

/-- The program of a tree puts its value on the stack and touches nothing below. -/
theorem run_program (r : Registry) (t : Tree) (stack : List Float) :
    run r stack t.program = (t.evaluate r).map (· :: stack) := by
  induction t generalizing stack with
  | num literal =>
    simp only [Tree.program, run_cons, step, Tree.evaluate]
    cases Scalar.read? literal <;> rfl
  | neg operand ih =>
    simp only [Tree.program, run_append, ih, Tree.evaluate]
    cases operand.evaluate r <;> rfl
  | bin symbol left right ihl ihr =>
    simp only [Tree.program, run_append, ihl, Tree.evaluate]
    cases left.evaluate r with
    | error e => rfl
    | ok a =>
      simp only [Except.map, bind, Except.bind, ihr]
      cases right.evaluate r with
      | error e => rfl
      | ok b =>
        simp only [run_cons, step_op]
        cases r.resolve (String.singleton symbol) with
        | error e => rfl
        | ok operation =>
          simp only [bind, Except.bind]
          cases operation a b <;> rfl

/-- The value of the program is the value of the tree. -/
theorem evaluate_program (r : Registry) (t : Tree) : evaluate r t.program = t.evaluate r := by
  rw [evaluate, run_program]
  cases t.evaluate r <;> rfl

end Machine

end PostfixCalc
