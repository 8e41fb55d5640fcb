import PostfixCalc.Postfix
import PostfixCalc.Registry
import PostfixCalc.Scalar

/-!
# The stack machine

A postfix program is run on a stack of numbers: a number is pushed, an operator
takes its operands from the top, the right one first, and pushes its result. The
program has a value if exactly one number is left.

Results:
* `Machine.run_append`: a program runs in pieces.
* `Machine.step_op`: an operator finds its operation only after its operands.
-/

namespace PostfixCalc.Machine

/-- The stack after one more token; its head is the top. -/
def step (r : Registry) (stack : List Float) : Token → Except CalcError (List Float)
  | .num literal =>
    match Scalar.read? literal with
    | some x => .ok (x :: stack)
    | none => .error (.machine (.invalidNumber literal))
  | .neg =>
    match stack with
    | a :: below => .ok (-a :: below)
    | [] => .error (.machine (.underflow Token.neg.text))
  | .op symbol =>
    match stack with
    | b :: a :: below => do
      let operation ← r.resolve (String.singleton symbol)
      let value ← (operation a b).mapError .arithmetic
      return value :: below
    | _ => .error (.machine (.underflow (Token.op symbol).text))
  | .lpar | .rpar => .error (.machine (.malformed stack.length))

/-- The stack after a whole program. -/
def run (r : Registry) (stack : List Float) (program : List Token) :
    Except CalcError (List Float) :=
  program.foldlM (step r) stack

/-- The value of a finished program: the only number on the stack. -/
def result : List Float → Except CalcError Float
  | [x] => .ok x
  | stack => .error (.machine (.malformed stack.length))

/-- The value of a postfix program. -/
def evaluate (r : Registry) (program : List Token) : Except CalcError Float :=
  run r [] program >>= result

theorem run_cons (r : Registry) (stack : List Float) (t : Token) (program : List Token) :
    run r stack (t :: program) = step r stack t >>= fun s => run r s program :=
  rfl

theorem run_append (r : Registry) (stack : List Float) (p q : List Token) :
    run r stack (p ++ q) = run r stack p >>= fun s => run r s q := by
  simp [run, List.foldlM_append]

/-- With two operands on the stack, the operation is looked up and then applied. -/
theorem step_op (r : Registry) (a b : Float) (below : List Float) (symbol : Char) :
    step r (b :: a :: below) (.op symbol) =
      r.resolve (String.singleton symbol) >>= fun operation =>
        (operation a b).mapError .arithmetic >>= fun value => .ok (value :: below) :=
  rfl

end PostfixCalc.Machine
