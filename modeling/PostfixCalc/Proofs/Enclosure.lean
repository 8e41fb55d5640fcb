import PostfixCalc.Proofs.Grammar
import PostfixCalc.Proofs.Juxtaposition

/-!
# Parentheses around a text

Parentheses around a whole text say nothing. The lexer treats what follows an
open parenthesis as it treats the start of a text. The conversion does not look
below an open parenthesis, as long as the parentheses above it match, and when
it is closed emits what otherwise the end emits. So the program is the same,
whether the text is an expression or not.

Results:
* `lexFrom_paren`, `tokenize_parenthesized`: the tokens of the text between
  those of the parentheses.
* `Conversion.step_onto`, `Conversion.foldlM_onto`: what lies below an open
  parenthesis is left alone.
* `Postfix.ofInfix_paren`: the program of tokens in parentheses.
* `Expression.evaluateWith_parenthesized`: so the value, or the error, is the
  same.
-/

namespace PostfixCalc

/-- `n` times `left`, the list and `n` times `right`. -/
def between {α : Type} (left right : α) (n : ℕ) (l : List α) : List α :=
  List.replicate n left ++ (l ++ List.replicate n right)

theorem between_zero {α : Type} (left right : α) (l : List α) : between left right 0 l = l :=
  List.append_nil l

theorem between_succ {α : Type} (left right : α) (n : ℕ) (l : List α) :
    between left right (n + 1) l = left :: (between left right n l ++ [right]) := by
  have hright : List.replicate (n + 1) right = List.replicate n right ++ [right] :=
    List.replicate_succ'
  simp [between, hright, List.replicate_succ]

/-- The text in `n` pairs of parentheses. -/
def parenthesized (n : ℕ) (s : String) : String := String.ofList (between '(' ')' n s.toList)

/-! ## The tokens -/

open Token

theorem LexError.later_zero (e : LexError) : e.later 0 = e := by
  cases e <;> rfl

theorem LexError.later_later (e : LexError) (m n : ℕ) : (e.later m).later n = e.later (m + n) := by
  cases e <;> simp [later, Nat.add_assoc]

theorem apart_rpar : Numeral.Apart [')'] := by
  rintro c ⟨⟩
  decide

/-- A text in parentheses is lexed as if it stood alone, one character further on. -/
theorem lexFrom_paren (position : ℕ) (cs : List Char) :
    lexFrom position none ('(' :: (cs ++ [')'])) =
      (lexFrom (position + 1) none cs).map fun tokens => lpar :: (tokens ++ [rpar]) := by
  have hclose : ∀ position previous, lexFrom position previous [')'] = .ok [rpar] := by
    intro position previous
    rw [lexFrom_symbol (t := rpar) (by decide) rfl, lexFrom_nil]
    rfl
  -- an operand is awaited behind the parenthesis as it is at the start
  have hawaits : (some lpar).all awaitsOperand = (none : Option Token).all awaitsOperand := rfl
  have hopen := lexFrom_congr hawaits (position + 1) (cs ++ [')'])
  rw [lexFrom_symbol (t := lpar) (by decide) rfl, hopen, lexFrom_append apart_rpar]
  cases lexFrom (position + 1) none cs with
  | error e => rfl
  | ok tokens =>
    show ((lexFrom _ _ [')']).map (tokens ++ ·)).map (lpar :: ·) = _
    rw [hclose]
    rfl

/-- The tokens of a text in parentheses, and its error at another position. -/
theorem tokenize_parenthesized (n : ℕ) (s : String) :
    tokenize (parenthesized n s) =
      ((tokenize s).mapError (LexError.later n)).map (between lpar rpar n) := by
  rw [tokenize, parenthesized, String.toList_ofList]
  induction n with
  | zero =>
    rw [between_zero]
    show tokenize s = _
    cases tokenize s with
    | error e => exact congrArg Except.error e.later_zero.symm
    | ok tokens => exact congrArg Except.ok (between_zero lpar rpar tokens).symm
  | succ n ih =>
    rw [between_succ, lexFrom_paren, lexFrom_add_position 1 0, ih]
    cases tokenize s with
    | error e => exact congrArg Except.error (e.later_later n 1)
    | ok tokens => exact congrArg Except.ok (between_succ lpar rpar n tokens).symm

/-! ## The program -/

namespace Conversion

variable {s s' : Conversion}

/-- The same state with `base` below the stack. -/
def onto (s : Conversion) (base : List Token) : Conversion := ⟨s.emitted, s.stack ++ base⟩

/-- An operator lets nothing go below an open parenthesis. -/
theorem pushOperator_onto (s : Conversion) (t : Token) (below : List Token) :
    (s.onto (.lpar :: below)).pushOperator t = (s.pushOperator t).onto (.lpar :: below) := by
  have hlpar : ∀ u ∈ (Token.lpar :: below).head?, t.yields u = false := by
    rintro u ⟨⟩
    rfl
  obtain ⟨htake, hdrop⟩ := takeWhile_append_of_head? hlpar s.stack
  simp only [pushOperator, onto, emit, htake, hdrop, List.cons_append]

/-- A token that is read above an open parenthesis leaves alone what lies below. -/
theorem step_onto {t : Token} (h : s.step t = .ok s') (below : List Token) :
    (s.onto (.lpar :: below)).step t = .ok (s'.onto (.lpar :: below)) := by
  cases t with
  | num literal =>
    obtain rfl := Except.ok.inj h
    rfl
  | op symbol =>
    obtain rfl := Except.ok.inj h
    exact congrArg Except.ok (pushOperator_onto s (.op symbol) below)
  | neg =>
    obtain rfl := Except.ok.inj h
    exact congrArg Except.ok (pushOperator_onto s .neg below)
  | lpar =>
    obtain rfl := Except.ok.inj h
    rfl
  | rpar =>
    obtain ⟨above, inside, hstack, hnone, rfl⟩ := exists_of_close h
    have hbase : (s.onto (.lpar :: below)).stack = above ++ .lpar :: (inside ++ .lpar :: below) := by
      rw [onto, hstack, List.append_assoc, List.cons_append]
    exact step_close hnone hbase

/-- So do many tokens, if none of them closes the parenthesis. -/
theorem foldlM_onto {tokens : List Token} (h : tokens.foldlM step s = .ok s')
    (below : List Token) :
    tokens.foldlM step (s.onto (.lpar :: below)) = .ok (s'.onto (.lpar :: below)) := by
  induction tokens generalizing s with
  | nil =>
    obtain rfl := Except.ok.inj h
    rfl
  | cons t tokens ih =>
    obtain ⟨middle, hstep, hrest⟩ := bind_eq_ok_iff.mp h
    rw [List.foldlM_cons, step_onto hstep]
    exact ih hrest

end Conversion

namespace Postfix

variable {tokens program : List Token}

/-- The closing parenthesis emits what the end would emit. -/
theorem ofInfix_paren (h : ofInfix tokens = .ok program) :
    ofInfix (.lpar :: (tokens ++ [.rpar])) = .ok program := by
  obtain ⟨s, hrun, hfinish⟩ := bind_eq_ok_iff.mp h
  unfold Conversion.finish at hfinish
  split_ifs at hfinish with hall
  have hnone : .lpar ∉ s.stack := fun hmem => absurd (List.all_eq_true.mp hall _ hmem) (by decide)
  have hinside : tokens.foldlM Conversion.step ⟨[], [.lpar]⟩ = .ok ⟨s.emitted, s.stack ++ [.lpar]⟩ :=
    Conversion.foldlM_onto hrun []
  have hclose : Conversion.step ⟨s.emitted, s.stack ++ [.lpar]⟩ .rpar = .ok ⟨s.emit s.stack, []⟩ :=
    Conversion.step_close hnone rfl
  have hopen : Conversion.step .start .lpar = .ok ⟨[], [.lpar]⟩ := rfl
  have hwhole : (Token.lpar :: (tokens ++ [.rpar])).foldlM Conversion.step .start =
      .ok ⟨s.emit s.stack, []⟩ := by
    simp only [List.foldlM_cons, List.foldlM_append, hopen, hinside, hclose, bind, Except.bind,
      List.foldlM_nil, pure, Except.pure]
  rw [ofInfix, hwhole]
  exact hfinish

/-- The tokens have to be converted without the parentheses. If theirs do not
    match, they may match with those around them. -/
example : ofInfix [.rpar, .lpar] = .error .unopened ∧
    ofInfix (.lpar :: ([.rpar, .lpar] ++ [.rpar])) = .ok [] := by
  decide

/-- Any number of parentheses around tokens changes nothing. -/
theorem ofInfix_between (h : ofInfix tokens = .ok program) (n : ℕ) :
    ofInfix (between .lpar .rpar n tokens) = .ok program := by
  induction n with
  | zero => rw [between_zero, h]
  | succ n ih =>
    rw [between_succ]
    exact ofInfix_paren ih

end Postfix

/-! ## The value -/

namespace Expression

/-- An error of the lexer is the error of the text. -/
theorem evaluateWith_of_lexError (r : Registry) {s : String} {e : LexError}
    (h : tokenize s = .error e) : evaluateWith r s = .error (.lex e) := by
  simp [evaluateWith, compile, h, Except.mapError, bind, Except.bind]

/-- **Parentheses around a text change nothing.** An error of the lexer is found
    as many characters further on as parentheses are opened. If the text has
    tokens and the parentheses among them match, then it has the same value, or
    is refused for the same reason, with any operations and whatever else is
    wrong with it. -/
theorem evaluateWith_parenthesized (n : ℕ) (s : String) (r : Registry) :
    (∀ e, tokenize s = .error e →
      evaluateWith r s = .error (.lex e) ∧
        evaluateWith r (parenthesized n s) = .error (.lex (e.later n))) ∧
    (∀ tokens program, tokenize s = .ok tokens → Postfix.ofInfix tokens = .ok program →
      evaluateWith r (parenthesized n s) = evaluateWith r s) := by
  have hlex := tokenize_parenthesized n s
  constructor
  · intro e he
    rw [he] at hlex
    exact ⟨evaluateWith_of_lexError r he, evaluateWith_of_lexError r hlex⟩
  · intro tokens program hs hp
    rw [hs] at hlex
    rw [evaluateWith_of_tokens hlex (Postfix.ofInfix_between hp n), evaluateWith_of_tokens hs hp]

/-- A character that starts no token, a product, and operands without an
    operator, each in two pairs of parentheses. -/
theorem evaluateWith_parenthesized_samples :
    (tokenize "1 $" = .error (.unexpectedChar '$' 2) ∧
      evaluateWith .standard "((1 $))" = .error (.lex (.unexpectedChar '$' 4))) ∧
    (evaluateWith .standard "-2*(3)" = .ok (-6) ∧ evaluateWith .standard "((-2*(3)))" = .ok (-6)) ∧
    (evaluateWith .empty "1 (2)" = .error (.machine (.malformed 2)) ∧
      evaluateWith .empty "((1 (2)))" = .error (.machine (.malformed 2))) := by
  have herror : tokenize "1 $" = .error (.unexpectedChar '$' 2) := by decide +kernel
  have hproduct : tokenize "-2*(3)" = .ok [.neg, .num "2", .op '*', .lpar, .num "3", .rpar] := by
    decide +kernel
  have hadjacent : tokenize "1 (2)" = .ok [.num "1", .lpar, .num "2", .rpar] := by decide +kernel
  have hvalue : evaluateWith .standard "-2*(3)" = .ok (-6) := by decide +kernel
  have hrefused : evaluateWith .empty "1 (2)" = .error (.machine (.malformed 2)) := by
    decide +kernel
  refine ⟨⟨herror, ?_⟩, ⟨hvalue, ?_⟩, hrefused, ?_⟩
  · exact ((evaluateWith_parenthesized 2 "1 $" .standard).1 _ herror).2
  · exact ((evaluateWith_parenthesized 2 "-2*(3)" .standard).2 _ _ hproduct rfl).trans hvalue
  · exact ((evaluateWith_parenthesized 2 "1 (2)" .empty).2 _ _ hadjacent rfl).trans hrefused

end Expression

end PostfixCalc
