import PostfixCalc.Expression
import PostfixCalc.Proofs.Program

/-!
# Infix expressions mean their trees

The grammar of infix expressions has a level for each strength of binding. The
conversion to postfix order works without it, on a stack of waiting operators.
What joins the two is the state in which a phrase of level `k` leaves the
stack: untouched below, with operators of level `k` and above on top, which
finish the program of the phrase as soon as they are let go.

Results:
* `Conversion.foldlM_derives`: the effect of a phrase on any state that does
  not disturb it.
* `Postfix.ofInfix_derives`: the conversion of an expression is the program of
  its syntax tree.
* `Derives.tree_unique`: the grammar is not ambiguous.
* `Expression.evaluate_derived`: an expression, as tokens or as text, has the
  value of its syntax tree, errors included.
-/

namespace PostfixCalc

/-! ## The grammar -/

/-- The level at which a symbol joins two operands: `+` and `-` bind more
    tightly than symbols outside the four, `*` and `/` more tightly still. -/
def Token.level (symbol : Char) : ℕ :=
  if symbol = '+' ∨ symbol = '-' then 1
  else if symbol = '*' ∨ symbol = '/' then 2
  else 0

/-- `Derives start k tokens t`: the tokens are a phrase of level `k` with the
    syntax tree `t`. Levels 0, 1 and 2 are chains of operands of the next level
    joined by the symbols of the level, read from the left; level 3 is a
    primary after any number of unary minuses; level 4 is a primary, that is a
    number or a phrase of level `start` in parentheses. -/
inductive Derives (start : ℕ) : ℕ → List Token → Tree → Prop
  | num (literal : String) : Derives start 4 [.num literal] (.num literal)
  | paren {tokens : List Token} {t : Tree} : Derives start start tokens t →
      Derives start 4 (.lpar :: (tokens ++ [.rpar])) t
  | neg {tokens : List Token} {t : Tree} : Derives start 3 tokens t →
      Derives start 3 (.neg :: tokens) (.neg t)
  | bin {symbol : Char} {left right : List Token} {a b : Tree} :
      Derives start (Token.level symbol) left a →
      Derives start (Token.level symbol + 1) right b →
      Derives start (Token.level symbol) (left ++ .op symbol :: right) (.bin symbol a b)
  | lift {k : ℕ} {tokens : List Token} {t : Tree} : Derives start (k + 1) tokens t →
      Derives start k tokens t

/-- A phrase of one level is a phrase of every lower level. -/
theorem Derives.of_le {start k m : ℕ} {tokens : List Token} {t : Tree} (hkm : k ≤ m)
    (h : Derives start m tokens t) : Derives start k tokens t := by
  induction hkm with
  | refl => exact h
  | step _ ih => exact ih h.lift

namespace Token

theorem level_le (symbol : Char) : level symbol ≤ 2 := by
  unfold level
  split_ifs <;> omega

/-- The conversion and the grammar rank the symbols alike. -/
theorem precedence_op (symbol : Char) : (op symbol).precedence = level symbol := by
  unfold precedence level
  split <;> simp_all

/-- An operator of its own level or above is let go. -/
theorem yields_op_of_le {symbol : Char} {top : Token} (h : top.isOperator = true)
    (hle : level symbol ≤ top.precedence) : (op symbol).yields top = true := by
  rw [yields, h, precedence_op]
  rcases Nat.eq_or_lt_of_le hle with heq | hlt
  · simp [heq]
  · simp [hlt]

/-- An operator of a lower level waits. -/
theorem yields_op_of_lt {symbol other : Char} (h : level other < level symbol) :
    (op symbol).yields (op other) = false := by
  simp only [yields, precedence_op]
  rw [decide_eq_false (by omega : ¬ level symbol < level other), beq_false_of_ne (by omega)]
  simp

end Token

/-! ## The conversion of a phrase -/

namespace Conversion

/-- Every operator of level `k` or above leaves this stack as it is. -/
def Waits (k : ℕ) (stack : List Token) : Prop :=
  ∀ symbol, k ≤ Token.level symbol →
    stack.takeWhile (Token.op symbol).yields = [] ∧
      stack.dropWhile (Token.op symbol).yields = stack

theorem Waits.mono {k m : ℕ} {stack : List Token} (h : Waits k stack) (hkm : k ≤ m) :
    Waits m stack :=
  fun symbol hs => h symbol (le_trans hkm hs)

theorem waits_nil (k : ℕ) : Waits k [] := fun _ _ => ⟨rfl, rfl⟩

theorem waits_cons {k : ℕ} {top : Token} (below : List Token)
    (h : ∀ symbol, k ≤ Token.level symbol → (Token.op symbol).yields top = false) :
    Waits k (top :: below) := by
  intro symbol hs
  simp [h symbol hs]

/-- An open parenthesis shields what is below it. -/
theorem waits_lpar (k : ℕ) (below : List Token) : Waits k (.lpar :: below) :=
  waits_cons below fun _ _ => rfl

/-- Nothing binds more tightly than a unary minus. -/
theorem waits_neg (below : List Token) : Waits 3 (.neg :: below) := by
  apply waits_cons
  intro symbol hs
  have := Token.level_le symbol
  omega

/-- An operator waits for an operand of the next level. -/
theorem waits_op (symbol : Char) (below : List Token) :
    Waits (Token.level symbol + 1) (.op symbol :: below) :=
  waits_cons below fun _ hs => Token.yields_op_of_lt (by omega)

/-- The operators that a phrase of level `k` leaves waiting. -/
def Pending (k : ℕ) (waiting : List Token) : Prop :=
  ∀ t ∈ waiting, t.isOperator = true ∧ k ≤ t.precedence

theorem Pending.mono {k m : ℕ} {waiting : List Token} (h : Pending m waiting) (hkm : k ≤ m) :
    Pending k waiting :=
  fun t ht => ⟨(h t ht).1, le_trans hkm (h t ht).2⟩

theorem Pending.append {k : ℕ} {waiting : List Token} {t : Token} (h : Pending k waiting)
    (ht : t.isOperator = true) (hk : k ≤ t.precedence) : Pending k (waiting ++ [t]) := by
  intro u hu
  rcases List.mem_append.mp hu with hu | hu
  · exact h u hu
  · rw [List.mem_singleton.mp hu]; exact ⟨ht, hk⟩

/-- An operator of level `k` lets go exactly what a phrase of level `k` left waiting. -/
theorem step_op_pending {symbol : Char} {emitted waiting stack : List Token}
    (hp : Pending (Token.level symbol) waiting) (hw : Waits (Token.level symbol) stack) :
    step ⟨emitted, waiting ++ stack⟩ (.op symbol) =
      .ok ⟨waiting.reverse ++ emitted, .op symbol :: stack⟩ := by
  have hall : ∀ t ∈ waiting, (Token.op symbol).yields t = true :=
    fun t ht => Token.yields_op_of_le (hp t ht).1 (hp t ht).2
  obtain ⟨htake, hdrop⟩ := hw symbol le_rfl
  rw [step_op, List.takeWhile_append_of_pos hall, List.dropWhile_append_of_pos hall, htake, hdrop,
    List.append_nil]

/-- A unary minus lets nothing go. -/
theorem step_neg (s : Conversion) : s.step .neg = .ok ⟨s.emitted, .neg :: s.stack⟩ := by
  obtain ⟨emitted, stack⟩ := s
  rcases stack with _ | ⟨top, below⟩
  · rfl
  · simp [step, pushOperator, emit, Token.yields_neg]

theorem lpar_notMem_pending {k : ℕ} {waiting : List Token} (h : Pending k waiting) :
    .lpar ∉ waiting := by
  intro hmem
  exact absurd (h _ hmem).1 (by decide)

/-- A phrase of level `k`, read above a stack that operators of level `k` leave
    as it is, puts operators of level `k` and above on that stack. Once they
    are let go, exactly the program of the phrase has been emitted. -/
theorem foldlM_derives {start k : ℕ} {tokens : List Token} {t : Tree}
    (h : Derives start k tokens t) :
    ∀ emitted stack, Waits k stack → ∃ emitted' waiting, Pending k waiting ∧
      waiting.reverse ++ emitted' = t.program.reverse ++ emitted ∧
      tokens.foldlM step ⟨emitted, stack⟩ = .ok ⟨emitted', waiting ++ stack⟩ := by
  induction h with
  | num literal =>
    intro emitted stack _
    exact ⟨.num literal :: emitted, [], by simp [Pending], rfl, rfl⟩
  | @paren tokens t _ ih =>
    intro emitted stack _
    obtain ⟨emitted', waiting, hp, hout, hrun⟩ := ih emitted (.lpar :: stack) (waits_lpar _ stack)
    refine ⟨t.program.reverse ++ emitted, [], by simp [Pending], rfl, ?_⟩
    have hclose : step ⟨emitted', waiting ++ .lpar :: stack⟩ .rpar =
        .ok ⟨t.program.reverse ++ emitted, stack⟩ := by
      rw [step_close (lpar_notMem_pending hp) rfl, ← hout]
    have hopen : step ⟨emitted, stack⟩ .lpar = .ok ⟨emitted, .lpar :: stack⟩ := rfl
    simp only [List.foldlM_cons, List.foldlM_append, hopen, hrun, hclose, bind, Except.bind,
      List.foldlM_nil, pure, Except.pure, List.nil_append]
  | @neg tokens t _ ih =>
    intro emitted stack _
    obtain ⟨emitted', waiting, hp, hout, hrun⟩ := ih emitted (.neg :: stack) (waits_neg stack)
    refine ⟨emitted', waiting ++ [.neg], hp.append rfl (by decide), ?_, ?_⟩
    · simp [Tree.program, hout]
    · rw [List.foldlM_cons, step_neg, List.append_assoc]
      exact hrun
  | @bin symbol left right a b _ _ ihl ihr =>
    intro emitted stack hw
    obtain ⟨emitted₁, waiting₁, hp₁, hout₁, hrun₁⟩ := ihl emitted stack hw
    -- the symbol lets go what the left operand left waiting, and nothing below
    have hstep : step ⟨emitted₁, waiting₁ ++ stack⟩ (.op symbol) =
        .ok ⟨waiting₁.reverse ++ emitted₁, .op symbol :: stack⟩ :=
      step_op_pending hp₁ hw
    rw [hout₁] at hstep
    obtain ⟨emitted₂, waiting₂, hp₂, hout₂, hrun₂⟩ :=
      ihr (a.program.reverse ++ emitted) (.op symbol :: stack) (waits_op symbol stack)
    have hlevel : Token.level symbol ≤ (Token.op symbol).precedence :=
      (Token.precedence_op symbol).ge
    refine ⟨emitted₂, waiting₂ ++ [.op symbol],
      (hp₂.mono (Nat.le_succ _)).append rfl hlevel, ?_, ?_⟩
    · simp [Tree.program, hout₂]
    · simp only [List.foldlM_append, List.foldlM_cons, hrun₁, hstep, bind, Except.bind, hrun₂,
        List.append_assoc, List.singleton_append]
  | @lift k tokens t _ ih =>
    intro emitted stack hw
    obtain ⟨emitted', waiting, hp, hout, hrun⟩ := ih emitted stack (hw.mono (Nat.le_succ k))
    exact ⟨emitted', waiting, hp.mono (Nat.le_succ k), hout, hrun⟩

end Conversion

/-- The postfix order of an expression is the program of its syntax tree. -/
theorem Postfix.ofInfix_derives {start k : ℕ} {tokens : List Token} {t : Tree}
    (h : Derives start k tokens t) : Postfix.ofInfix tokens = .ok t.program := by
  obtain ⟨emitted, waiting, hp, hout, hrun⟩ :=
    Conversion.foldlM_derives h [] [] (Conversion.waits_nil k)
  have hall : waiting.all Token.isOperator = true := by
    rw [List.all_eq_true]
    exact fun u hu => (hp u hu).1
  rw [List.append_nil] at hout hrun
  rw [Postfix.ofInfix, Conversion.start, hrun]
  simp [bind, Except.bind, Conversion.finish, hall, Conversion.emit, hout]

/-- The grammar is not ambiguous. -/
theorem Derives.tree_unique {start k : ℕ} {tokens : List Token} {t u : Tree}
    (ht : Derives start k tokens t) (hu : Derives start k tokens u) : t = u := by
  have h := Postfix.ofInfix_derives ht
  rw [Postfix.ofInfix_derives hu] at h
  exact Tree.program_injective (Except.ok.inj h).symm

/-! ## The value of an expression -/

namespace Expression

/-- The value of a text whose tokens are known. -/
theorem evaluateWith_of_tokens {r : Registry} {s : String} {tokens program : List Token}
    (hs : tokenize s = .ok tokens) (hp : Postfix.ofInfix tokens = .ok program) :
    evaluateWith r s = Machine.evaluate r program := by
  simp [evaluateWith, compile, hs, hp, Except.mapError, bind, Except.bind, pure, Except.pure]

/-- **The value of an expression is the value of its syntax tree**, with any
    operations: the conversion emits the nodes of the tree in postorder, the
    machine computes from them what the tree computes, down to the first
    error, and so does the evaluation of a text with these tokens. -/
theorem evaluate_derived {tokens : List Token} {t : Tree} (h : Derives 0 0 tokens t) :
    (∀ u, Derives 0 0 tokens u → u = t) ∧
    Postfix.ofInfix tokens = .ok t.program ∧
    (∀ r, (Postfix.ofInfix tokens).mapError .paren >>= Machine.evaluate r = t.evaluate r) ∧
    (∀ s, tokenize s = .ok tokens → ∀ r, evaluateWith r s = t.evaluate r) := by
  have hp := Postfix.ofInfix_derives h
  refine ⟨fun u hu => hu.tree_unique h, hp, fun r => ?_, fun s hs r => ?_⟩
  · rw [hp]
    exact Machine.evaluate_program r t
  · rw [evaluateWith_of_tokens hs hp, Machine.evaluate_program]

/-- The sum is negated before the product is taken. -/
theorem evaluate_derived_negated_sum :
    tokenize "-(1 + 2) * 3" =
      .ok [.neg, .lpar, .num "1", .op '+', .num "2", .rpar, .op '*', .num "3"] ∧
    ∀ r, evaluateWith r "-(1 + 2) * 3" =
      (Tree.bin '*' (.neg (.bin '+' (.num "1") (.num "2"))) (.num "3")).evaluate r := by
  have htokens : tokenize "-(1 + 2) * 3" =
      .ok [.neg, .lpar, .num "1", .op '+', .num "2", .rpar, .op '*', .num "3"] := by
    decide +kernel
  have hleft : Derives 0 (Token.level '+') [.num "1"] (.num "1") :=
    .lift (.lift (.lift (.num "1")))
  have hsum : Derives 0 1 [.num "1", .op '+', .num "2"] (.bin '+' (.num "1") (.num "2")) :=
    .bin hleft (.lift (.lift (.num "2")))
  have hfactor : Derives 0 (Token.level '*') [.neg, .lpar, .num "1", .op '+', .num "2", .rpar]
      (.neg (.bin '+' (.num "1") (.num "2"))) :=
    .lift (.neg (.lift (.paren (.lift hsum))))
  have hproduct : Derives 0 2 _ _ := .bin hfactor (.lift (.num "3"))
  exact ⟨htokens, (evaluate_derived (.lift (.lift hproduct))).2.2.2 _ htokens⟩

end Expression

end PostfixCalc
