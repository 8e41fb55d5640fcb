import PostfixCalc.Error
import PostfixCalc.Token

/-!
# From infix to postfix order

The conversion passes over the tokens once and keeps the operators that still
wait for their right operand on a stack, above the parentheses that are open.
`Conversion.step` is one token of that pass, and `Postfix.ofInfix` the whole of
it. Only parentheses are checked: any other token list is converted, well formed
or not.

Results:
* `yields_neg`: an incoming unary minus lets every operator wait.
* `Conversion.step_op`, `Conversion.step_close`: what is emitted is the top of
  the stack, in the order in which it stands there.
* `Conversion.exists_of_close`: what a closing parenthesis finds on the stack.
-/

namespace PostfixCalc

/-- Whether the operator `top` on the stack is emitted before `incoming` is
    pushed: it binds more tightly, or as tightly and `incoming` associates to
    the left. The unary minus associates to the right. -/
def Token.yields (incoming top : Token) : Bool :=
  top.isOperator &&
    (incoming.precedence < top.precedence ||
      (top.precedence == incoming.precedence && incoming != neg))

/-- No operator binds more tightly than the unary minus, which therefore emits none. -/
theorem Token.yields_neg (top : Token) : neg.yields top = false := by
  cases top with
  | op symbol => simp [yields, isOperator]; unfold precedence; split <;> simp_all
  | neg => decide
  | num literal => rfl
  | lpar => rfl
  | rpar => rfl

/-- The state of the conversion: the tokens emitted so far, latest first, and
    the operators and open parentheses that wait, innermost first. -/
structure Conversion where
  emitted : List Token
  stack : List Token
deriving DecidableEq, Repr

namespace Conversion

/-- The state before the first token. -/
def start : Conversion := ⟨[], []⟩

/-- Emits `tokens`, the first one first. -/
def emit (s : Conversion) (tokens : List Token) : List Token :=
  tokens.reverse ++ s.emitted

/-- An operator waits, after the operators that it lets go first are emitted. -/
def pushOperator (s : Conversion) (t : Token) : Conversion :=
  ⟨s.emit (s.stack.takeWhile t.yields), t :: s.stack.dropWhile t.yields⟩

/-- A closing parenthesis emits what waits above the last open one, which goes away with it. -/
def close (s : Conversion) : Except ParenError Conversion :=
  match s.stack.dropWhile (· != .lpar) with
  | [] => .error .unopened
  | _ :: below => .ok ⟨s.emit (s.stack.takeWhile (· != .lpar)), below⟩

/-- The state after one more token. -/
def step (s : Conversion) : Token → Except ParenError Conversion
  | .num literal => .ok ⟨s.emit [.num literal], s.stack⟩
  | .op symbol => .ok (s.pushOperator (.op symbol))
  | .neg => .ok (s.pushOperator .neg)
  | .lpar => .ok ⟨s.emitted, .lpar :: s.stack⟩
  | .rpar => s.close

/-- At the end all that waits is emitted, unless a parenthesis is still open. -/
def finish (s : Conversion) : Except ParenError (List Token) :=
  if s.stack.all Token.isOperator then .ok (s.emit s.stack).reverse else .error .unclosed

theorem step_op (s : Conversion) (symbol : Char) :
    s.step (.op symbol) =
      .ok ⟨(s.stack.takeWhile (Token.op symbol).yields).reverse ++ s.emitted,
        .op symbol :: s.stack.dropWhile (Token.op symbol).yields⟩ :=
  rfl

theorem step_close {s : Conversion} {above below : List Token} (h : .lpar ∉ above)
    (hs : s.stack = above ++ .lpar :: below) :
    s.step .rpar = .ok ⟨above.reverse ++ s.emitted, below⟩ := by
  have hall : ∀ t ∈ above, (t != Token.lpar) = true := by
    intro t ht
    have hne : t ≠ .lpar := by rintro rfl; exact h ht
    simpa using hne
  simp [step, close, hs, List.dropWhile_append_of_pos hall, List.takeWhile_append_of_pos hall, emit]

/-- There is an open parenthesis to close, and no other one above it. -/
theorem exists_of_close {s s' : Conversion} (h : s.close = .ok s') :
    ∃ above below, s.stack = above ++ .lpar :: below ∧ .lpar ∉ above ∧
      s' = ⟨s.emit above, below⟩ := by
  have hsplit := s.stack.takeWhile_append_dropWhile (p := (· != .lpar))
  unfold close at h
  cases hbelow : s.stack.dropWhile (· != .lpar) with
  | nil =>
    rw [hbelow] at h
    cases h
  | cons top below =>
    have hhead := List.head?_dropWhile_not (· != Token.lpar) s.stack
    have htop : top = .lpar := by simpa [hbelow] using hhead
    rw [hbelow] at h hsplit
    subst htop
    refine ⟨_, below, hsplit.symm, ?_, (Except.ok.inj h).symm⟩
    intro hmem
    have hne := List.all_eq_true.mp List.all_takeWhile _ hmem
    cases hne

end Conversion

/-- The tokens of an infix expression in postfix order, without parentheses. -/
def Postfix.ofInfix (tokens : List Token) : Except ParenError (List Token) :=
  tokens.foldlM Conversion.step Conversion.start >>= Conversion.finish

end PostfixCalc
