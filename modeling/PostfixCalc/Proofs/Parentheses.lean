import Mathlib.Tactic
import PostfixCalc.Postfix

/-!
# What the conversion checks

Operators come and go on the stack of the conversion, and numbers pass it by,
but the parentheses on it are those that are open. So the conversion refuses a
token list exactly where counting the open parentheses would.

Results:
* `Conversion.foldlM_nest`: the conversion fails where counting fails, and
  otherwise has the counted number of parentheses on its stack.
* `Postfix.nesting_of_ofInfix`: what is converted has its parentheses matched.
-/

namespace PostfixCalc

namespace Token

/-- The number of open parentheses after the token, if `depth` were open before
    it. -/
def nest (depth : ℕ) : Token → Except ParenError ℕ
  | lpar => .ok (depth + 1)
  | rpar => if depth = 0 then .error .unopened else .ok (depth - 1)
  | num _ | op _ | neg => .ok depth

/-- The number of open parentheses after a whole token list. -/
def nesting (depth : ℕ) (tokens : List Token) : Except ParenError ℕ :=
  tokens.foldlM nest depth

theorem nesting_cons (depth : ℕ) (t : Token) (tokens : List Token) :
    nesting depth (t :: tokens) = nest depth t >>= (nesting · tokens) :=
  rfl

/-- An open parenthesis is never let go by an operator. -/
theorem yields_lpar (t : Token) : t.yields lpar = false :=
  rfl

end Token

namespace Conversion

/-- The number of open parentheses on the stack. -/
def depth (s : Conversion) : ℕ :=
  s.stack.count .lpar

/-- Letting go tokens up to an open parenthesis at most leaves all of them. -/
theorem count_lpar_dropWhile {p : Token → Bool} (hp : p .lpar = false) (stack : List Token) :
    (stack.dropWhile p).count .lpar = stack.count .lpar := by
  have hgone : (stack.takeWhile p).count .lpar = 0 := by
    rw [List.count_eq_zero]
    intro hmem
    have hlpar := List.all_eq_true.mp List.all_takeWhile _ hmem
    rw [hp] at hlpar
    cases hlpar
  calc (stack.dropWhile p).count .lpar
      = (stack.takeWhile p).count .lpar + (stack.dropWhile p).count .lpar := by
        rw [hgone, Nat.zero_add]
    _ = stack.count .lpar := by rw [← List.count_append, List.takeWhile_append_dropWhile]

/-- An operator leaves the open parentheses alone. -/
theorem depth_pushOperator (s : Conversion) {t : Token} (ht : t ≠ .lpar) :
    (s.pushOperator t).depth = s.depth := by
  calc (s.pushOperator t).depth = (s.stack.dropWhile t.yields).count .lpar :=
        List.count_cons_of_ne ht
    _ = s.depth := count_lpar_dropWhile (Token.yields_lpar t) s.stack

/-- A closing parenthesis takes one open parenthesis, if there is one. -/
theorem close_map_depth (s : Conversion) : s.close.map depth = Token.nest s.depth .rpar := by
  have hdepth : s.depth = (s.stack.dropWhile (· != .lpar)).count .lpar :=
    (count_lpar_dropWhile rfl s.stack).symm
  simp only [close, Token.nest]
  rcases hbelow : s.stack.dropWhile (· != .lpar) with _ | ⟨top, below⟩
  · have hzero : s.depth = 0 := by rw [hdepth, hbelow]; rfl
    rw [hbelow, if_pos hzero]
    rfl
  · have htop : top = .lpar := by
      have hhead := List.head?_dropWhile_not (· != Token.lpar) s.stack
      simpa [hbelow] using hhead
    have hsucc : s.depth = below.count .lpar + 1 := by
      rw [hdepth, hbelow, htop, List.count_cons_self]
    rw [hbelow, if_neg (by omega), hsucc]
    rfl

/-- One token changes the open parentheses on the stack as it should. -/
theorem step_nest (s : Conversion) (t : Token) : (s.step t).map depth = Token.nest s.depth t := by
  cases t with
  | num literal => rfl
  | op symbol => exact congrArg Except.ok (depth_pushOperator s (by simp))
  | neg => exact congrArg Except.ok (depth_pushOperator s (by simp))
  | lpar => exact congrArg Except.ok List.count_cons_self
  | rpar => exact close_map_depth s

/-- The conversion fails where counting fails, and otherwise has the counted
    number of parentheses on its stack. -/
theorem foldlM_nest (s : Conversion) (tokens : List Token) :
    (tokens.foldlM step s).map depth = Token.nesting s.depth tokens := by
  induction tokens generalizing s with
  | nil => rfl
  | cons t tokens ih =>
    rw [List.foldlM_cons, Token.nesting_cons, ← step_nest]
    cases s.step t with
    | error e => rfl
    | ok s' => exact ih s'

/-- Nothing is open at an end that succeeds. -/
theorem depth_of_finish {s : Conversion} {program : List Token} (h : s.finish = .ok program) :
    s.depth = 0 := by
  unfold finish at h
  split_ifs at h with hall
  rw [depth, List.count_eq_zero]
  intro hmem
  exact absurd (List.all_eq_true.mp hall _ hmem) (by decide)

end Conversion

/-- What is converted has its parentheses matched. -/
theorem Postfix.nesting_of_ofInfix {tokens program : List Token}
    (h : ofInfix tokens = .ok program) : Token.nesting 0 tokens = .ok 0 := by
  have hcount := Conversion.foldlM_nest .start tokens
  rw [ofInfix] at h
  cases hrun : tokens.foldlM Conversion.step .start with
  | error e => rw [hrun] at h; cases h
  | ok s =>
    rw [hrun] at h hcount
    calc Token.nesting 0 tokens = .ok s.depth := hcount.symm
      _ = .ok 0 := by rw [Conversion.depth_of_finish h]

end PostfixCalc
