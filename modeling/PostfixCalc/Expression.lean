import PostfixCalc.Postfix.Machine
import PostfixCalc.Token.Lexer

/-!
# Expressions

The value of an infix expression: its tokens are brought into postfix order and
run on the stack machine. `explain` also shows the two token lists on the way.

Results:
* `explain_value`: the value explained is the value computed.
-/

namespace PostfixCalc

/-- The steps of a computation as they are shown. -/
structure Working where
  tokens : String
  program : String
  note : String
deriving DecidableEq, Repr

/-- No steps to show. -/
def Working.none : Working := ⟨"", "", ""⟩

namespace Expression

/-- The note under the steps of every computation. -/
def note : String := "Pipeline: jetons → RPN (shunting-yard) → pile f64."

/-- The tokens of a text, as typed and in postfix order. -/
def compile (s : String) : Except CalcError (List Token × List Token) := do
  let tokens ← (tokenize s).mapError .lex
  let program ← (Postfix.ofInfix tokens).mapError .paren
  return (tokens, program)

/-- The value of an expression, with the operations of `r`. -/
def evaluateWith (r : Registry) (s : String) : Except CalcError Float := do
  let compiled ← compile s
  Machine.evaluate r compiled.2

/-- The value of an expression, with the four operations. -/
def evaluate (s : String) : Except CalcError Float :=
  evaluateWith .standard s

/-- The value of an expression and the steps that lead to it. -/
def explain (r : Registry) (s : String) : Except CalcError (Float × Working) := do
  let compiled ← compile s
  let value ← Machine.evaluate r compiled.2
  return (value, ⟨Token.listText compiled.1, Token.listText compiled.2, note⟩)

/-- The value explained is the value computed, and so is the error. -/
theorem explain_value (r : Registry) (s : String) :
    (explain r s).map (·.1) = evaluateWith r s := by
  unfold explain evaluateWith
  cases compile s with
  | error e => rfl
  | ok compiled =>
    change (Machine.evaluate r compiled.2 >>= _).map _ = Machine.evaluate r compiled.2
    cases Machine.evaluate r compiled.2 <;> rfl

end Expression

end PostfixCalc
