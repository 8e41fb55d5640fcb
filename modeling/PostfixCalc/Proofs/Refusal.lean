import PostfixCalc.Proofs.Conservation
import PostfixCalc.Proofs.Grammar
import PostfixCalc.Proofs.Lexing

/-!
# Why a text has no value

The machine refuses more than a text can make it refuse: a literal that is no
number, a symbol without an operation, a parenthesis. What the stages before it
let through excludes these. The lexer lets only literals through that are
numbers, and only the four symbols, and the conversion changes the order of the
tokens and drops the parentheses, but does nothing else.

Results:
* `Machine.evaluate_error`: the machine refuses at a token, or at the end.
* `Expression.refusal_of_evaluateWith`: all that a text can be refused for.
* `Expression.internal_errors_unreachable`: with the four operations, what is
  left are errors of the text and the division by zero.
-/

namespace PostfixCalc

/-! ## Where the machine stops -/

namespace Machine

/-- What a token is refused for, other than a parenthesis. -/
theorem step_error {r : Registry} {stack : List Float} {t : Token} {e : CalcError}
    (ht : t.isParenthesis = false) (h : step r stack t = .error e) :
    (∃ l, t = .num l ∧ Scalar.read? l = none) ∨
    (t.isOperator = true ∧ e = .machine (.underflow t.text)) ∨
    (∃ symbol, t = .op symbol ∧ r.resolve (String.singleton symbol) = .error e) ∨
    ∃ error, e = .arithmetic error := by
  cases t with
  | num literal =>
    unfold step at h
    cases hread : Scalar.read? literal with
    | none => exact .inl ⟨literal, rfl, hread⟩
    | some x => simp [hread] at h
  | neg =>
    rcases stack with _ | ⟨a, below⟩
    · obtain rfl := Except.error.inj h
      exact .inr (.inl ⟨rfl, rfl⟩)
    · cases h
  | op symbol =>
    rcases stack with _ | ⟨b, _ | ⟨a, below⟩⟩
    · obtain rfl := Except.error.inj h
      exact .inr (.inl ⟨rfl, rfl⟩)
    · obtain rfl := Except.error.inj h
      exact .inr (.inl ⟨rfl, rfl⟩)
    · rw [step_op, bind_eq_error_iff] at h
      rcases h with hop | ⟨operation, -, h⟩
      · exact .inr (.inr (.inl ⟨symbol, rfl, hop⟩))
      · rcases bind_eq_error_iff.mp h with hvalue | ⟨value, -, hpush⟩
        · obtain ⟨error, -, rfl⟩ := mapError_eq_error_iff.mp hvalue
          exact .inr (.inr (.inr ⟨error, rfl⟩))
        · cases hpush
  | lpar => cases ht
  | rpar => cases ht

/-- A run that stops does so at one of its tokens. -/
theorem exists_step_of_run_error {r : Registry} {program : List Token} {stack : List Float}
    {e : CalcError} (h : run r stack program = .error e) :
    ∃ t ∈ program, ∃ stack', step r stack' t = .error e := by
  induction program generalizing stack with
  | nil => cases h
  | cons t program ih =>
    rw [run_cons, bind_eq_error_iff] at h
    rcases h with hstep | ⟨middle, -, hrest⟩
    · exact ⟨t, List.mem_cons_self .., stack, hstep⟩
    · obtain ⟨u, hu, hfail⟩ := ih hrest
      exact ⟨u, List.mem_cons_of_mem _ hu, hfail⟩

/-- The machine refuses a program at one of its tokens, or at the end for the
    number of values that are left. -/
theorem evaluate_error {r : Registry} {program : List Token} {e : CalcError}
    (h : evaluate r program = .error e) :
    (∃ t ∈ program, ∃ stack, step r stack t = .error e) ∨
    ∃ remaining, e = .machine (.malformed remaining) ∧ remaining ≠ 1 ∧
      remaining + program.countP Token.isBinary = program.countP Token.isNumber := by
  rw [evaluate, bind_eq_error_iff] at h
  rcases h with hrun | ⟨stack, hrun, hresult⟩
  · exact .inl (exists_step_of_run_error hrun)
  · have hne : stack.length ≠ 1 := by
      intro hone
      obtain ⟨x, rfl⟩ := List.length_eq_one_iff.mp hone
      cases hresult
    rw [result_of_length_ne_one hne] at hresult
    exact .inr ⟨stack.length, (Except.error.inj hresult).symm, hne, length_add_countP_of_run hrun⟩

end Machine

/-! ## What the stages before let through -/

namespace Token

/-- A literal of the lexical language is a number to the machine. -/
theorem read?_ne_none_of_isLiteral {l : String} (h : IsLiteral l) : Scalar.read? l ≠ none := by
  obtain ⟨n, hn, -, rfl⟩ := h
  rw [Scalar.read?, Numeral.literal, String.toList_ofList, (Scalar.readChars?_text hn).1]
  exact Option.some_ne_none _

/-- A text holds the characters of its tokens. -/
theorem mem_layout {blank : List Char} {spaced : List (Token × List Char)} {t : Token}
    (h : t ∈ spaced.map Prod.fst) : ∀ c ∈ t.written, c ∈ layout blank spaced := by
  intro c hc
  obtain ⟨p, hp, rfl⟩ := List.mem_map.mp h
  refine List.mem_append_right _ (List.mem_flatMap.mpr ⟨p, hp, ?_⟩)
  exact List.mem_append_left _ hc

/-- The tokens of a text: its literals are numbers, and its symbols are the four
    and stand in the text. -/
theorem of_mem_tokenize {s : String} {tokens : List Token} (h : tokenize s = .ok tokens) :
    (∀ l, num l ∈ tokens → Scalar.read? l ≠ none) ∧
    ∀ x, op x ∈ tokens → x ∈ ['+', '-', '*', '/'] ∧ x ∈ s.toList := by
  obtain ⟨hcanonical, blank, spaced, -, rfl, hs⟩ := CanonicalAfter.lexed h
  obtain ⟨hliteral, hsymbol, -⟩ := canonicalAfter_iff.mp hcanonical
  refine ⟨fun l hl => read?_ne_none_of_isLiteral (hliteral l hl), fun x hx => ⟨?_, ?_⟩⟩
  · simpa using hsymbol x hx
  · rw [hs]
    exact mem_layout hx x (List.mem_singleton_self x)

end Token

/-- A program has no parentheses, and no tokens but those of the expression. -/
theorem Postfix.of_mem_ofInfix {tokens program : List Token} (h : ofInfix tokens = .ok program) :
    ∀ t ∈ program, t ∈ tokens ∧ t.isParenthesis = false := by
  intro t ht
  have hmem := (perm_of_ofInfix h).mem_iff.mp ht
  rw [List.mem_filter] at hmem
  exact ⟨hmem.1, by simpa using hmem.2⟩

/-- A program has as many numbers and as many binary operators as the expression. -/
theorem Postfix.countP_ofInfix {tokens program : List Token} (h : ofInfix tokens = .ok program) :
    program.countP Token.isNumber = tokens.countP Token.isNumber ∧
      program.countP Token.isBinary = tokens.countP Token.isBinary := by
  have hcount : ∀ p : Token → Bool, (∀ t, p t = true → t.isParenthesis = false) →
      program.countP p = tokens.countP p := by
    intro p hp
    rw [(perm_of_ofInfix h).countP_eq, List.countP_filter]
    refine List.countP_congr fun t _ => ?_
    rw [Bool.and_eq_true, Bool.not_eq_true']
    exact and_iff_left_of_imp (hp t)
  constructor
  · exact hcount _ fun t ht => by cases t <;> simp_all [Token.isNumber, Token.isParenthesis]
  · exact hcount _ fun t ht => by cases t <;> simp_all [Token.isBinary, Token.isParenthesis]

/-! ## What a text is refused for -/

namespace Expression

theorem compile_eq_ok_iff {s : String} {tokens program : List Token} :
    compile s = .ok (tokens, program) ↔
      tokenize s = .ok tokens ∧ Postfix.ofInfix tokens = .ok program := by
  constructor
  · intro h
    obtain ⟨tokens', hlex, h⟩ := bind_eq_ok_iff.mp h
    obtain ⟨program', hparen, h⟩ := bind_eq_ok_iff.mp h
    obtain ⟨rfl, rfl⟩ := Prod.mk.inj (Except.ok.inj h)
    exact ⟨mapError_eq_ok_iff.mp hlex, mapError_eq_ok_iff.mp hparen⟩
  · rintro ⟨hlex, hparen⟩
    simp [compile, hlex, hparen, Except.mapError, bind, Except.bind, pure, Except.pure]

theorem compile_error {s : String} {e : CalcError} (h : compile s = .error e) :
    (∃ error, e = .lex error) ∨ ∃ error, e = .paren error := by
  rcases bind_eq_error_iff.mp h with hlex | ⟨tokens, -, h⟩
  · obtain ⟨error, -, rfl⟩ := mapError_eq_error_iff.mp hlex
    exact .inl ⟨error, rfl⟩
  · rcases bind_eq_error_iff.mp h with hparen | ⟨program, -, hpair⟩
    · obtain ⟨error, -, rfl⟩ := mapError_eq_error_iff.mp hparen
      exact .inr ⟨error, rfl⟩
    · cases hpair

/-- What a text can be refused for with the operations of `r`: its characters or
    its parentheses, an operation that has no result, an operator that lacks
    operands or is not known, and the number of values that are left. -/
inductive Refusal (r : Registry) (s : String) : CalcError → Prop
  | lex (error : LexError) : Refusal r s (.lex error)
  | paren (error : ParenError) : Refusal r s (.paren error)
  | arithmetic (error : ArithmeticError) : Refusal r s (.arithmetic error)
  | underflow {tokens : List Token} {t : Token} : tokenize s = .ok tokens → t ∈ tokens →
      t.isOperator = true → Refusal r s (.machine (.underflow t.text))
  | unsupported {tokens : List Token} {symbol : Char} : tokenize s = .ok tokens →
      .op symbol ∈ tokens →
      r.resolve (String.singleton symbol) = .error (.unsupported (String.singleton symbol)) →
      Refusal r s (.unsupported (String.singleton symbol))
  | malformed {tokens : List Token} {remaining : ℕ} : tokenize s = .ok tokens → remaining ≠ 1 →
      remaining + tokens.countP Token.isBinary = tokens.countP Token.isNumber →
      Refusal r s (.machine (.malformed remaining))

/-- Every text that is refused is refused for one of these. -/
theorem refusal_of_evaluateWith {r : Registry} {s : String} {e : CalcError}
    (h : evaluateWith r s = .error e) : Refusal r s e := by
  rcases bind_eq_error_iff.mp h with hcompile | ⟨⟨tokens, program⟩, hcompile, hvalue⟩
  · rcases compile_error hcompile with ⟨error, rfl⟩ | ⟨error, rfl⟩
    · exact .lex error
    · exact .paren error
  obtain ⟨hlex, hparen⟩ := compile_eq_ok_iff.mp hcompile
  rcases Machine.evaluate_error hvalue with ⟨t, ht, stack, hstep⟩ | ⟨remaining, rfl, hne, hcount⟩
  · obtain ⟨ht, hplain⟩ := Postfix.of_mem_ofInfix hparen t ht
    rcases Machine.step_error hplain hstep with ⟨l, rfl, hread⟩ | ⟨hop, rfl⟩ | ⟨x, rfl, hx⟩ |
      ⟨error, rfl⟩
    · exact absurd hread ((Token.of_mem_tokenize hlex).1 l ht)
    · exact .underflow hlex ht hop
    · obtain rfl := Registry.eq_unsupported_of_resolve hx
      exact .unsupported hlex ht hx
    · exact .arithmetic error
  · obtain ⟨hnumber, hbinary⟩ := Postfix.countP_ofInfix hparen
    rw [hnumber, hbinary] at hcount
    exact .malformed hlex hne hcount

/-- An operator of a text is shown as one of five texts. -/
theorem text_of_isOperator {s : String} {tokens : List Token} {t : Token}
    (hs : tokenize s = .ok tokens) (ht : t ∈ tokens) (hop : t.isOperator = true) :
    t.text ∈ ["+", "-", "*", "/", "u-"] := by
  cases t with
  | op symbol =>
    have hsymbol := ((Token.of_mem_tokenize hs).2 symbol ht).1
    simp only [List.mem_cons, List.not_mem_nil, or_false] at hsymbol
    rcases hsymbol with rfl | rfl | rfl | rfl <;> decide
  | neg => decide
  | num literal => cases hop
  | lpar => cases hop
  | rpar => cases hop

/-- The four operations are known. -/
theorem resolve_ne_error {symbol : Char} (h : symbol ∈ ['+', '-', '*', '/']) (e : CalcError) :
    Registry.standard.resolve (String.singleton symbol) ≠ .error e := by
  have hword : ∃ word,
      (symbol, word) ∈ [('+', "add"), ('-', "subtract"), ('*', "multiply"), ('/', "divide")] := by
    simp only [List.mem_cons, List.not_mem_nil, or_false] at h
    rcases h with rfl | rfl | rfl | rfl <;> simp
  obtain ⟨word, hword⟩ := hword
  obtain ⟨operation, hsymbol, -⟩ := Registry.exists_resolve_standard hword
  simp [hsymbol]

/-- **Errors inside the calculator do not surface.** What the lexer takes for a
    number is one to the machine, its symbols have operations, and the machine
    meets no parenthesis. A missing operand is named by its operator, the number
    of values left is the surplus of numbers over binary operators, which is
    then not 1, and only with other operations can a symbol be unknown. -/
theorem internal_errors_unreachable (s : String) :
    (∀ l, evaluate s ≠ .error (.machine (.invalidNumber l))) ∧
    (∀ key, evaluate s ≠ .error (.unsupported key)) ∧
    (∀ error, evaluate s ≠ .error (.shape error)) ∧
    (∀ error, evaluate s ≠ .error (.request error)) ∧
    (∀ operator, evaluate s = .error (.machine (.underflow operator)) →
      operator ∈ ["+", "-", "*", "/", "u-"]) ∧
    (∀ remaining, evaluate s = .error (.machine (.malformed remaining)) →
      remaining ≠ 1 ∧ ∃ tokens, tokenize s = .ok tokens ∧
        (remaining : ℤ) = tokens.countP Token.isNumber - tokens.countP Token.isBinary) ∧
    (∀ tokens program, tokenize s = .ok tokens → Postfix.ofInfix tokens = .ok program →
      .lpar ∉ program ∧ .rpar ∉ program) ∧
    (∀ r key, evaluateWith r s = .error (.unsupported key) →
      ∃ tokens symbol, tokenize s = .ok tokens ∧ .op symbol ∈ tokens ∧ symbol ∈ s.toList ∧
        symbol ∈ ['+', '-', '*', '/'] ∧ key = String.singleton symbol) := by
  refine ⟨?_, ?_, ?_, ?_, ?_, ?_, ?_, ?_⟩
  · intro l h
    cases refusal_of_evaluateWith h
  · intro key h
    cases refusal_of_evaluateWith h with
    | unsupported hs hx hunknown =>
      exact resolve_ne_error ((Token.of_mem_tokenize hs).2 _ hx).1 _ hunknown
  · intro error h
    cases refusal_of_evaluateWith h
  · intro error h
    cases refusal_of_evaluateWith h
  · intro operator h
    cases refusal_of_evaluateWith h with
    | underflow hs ht hop => exact text_of_isOperator hs ht hop
  · intro remaining h
    cases refusal_of_evaluateWith h with
    | malformed hs hne hcount => exact ⟨hne, _, hs, by omega⟩
  · intro tokens program _ hparen
    constructor <;> intro hmem <;> cases (Postfix.of_mem_ofInfix hparen _ hmem).2
  · intro r key h
    cases refusal_of_evaluateWith h with
    | unsupported hs hx _ =>
      obtain ⟨hfour, hmem⟩ := (Token.of_mem_tokenize hs).2 _ hx
      exact ⟨_, _, hs, hx, hmem, hfour, rfl⟩

/-- `1 +` lacks an operand, `1 2` has one value too many, and the symbol of
    `1 * 2` is unknown where no operation is known. -/
theorem internal_errors_unreachable_samples :
    (evaluate "1 +" = .error (.machine (.underflow "+")) ∧ "+" ∈ ["+", "-", "*", "/", "u-"]) ∧
    (evaluate "1 2" = .error (.machine (.malformed 2)) ∧ ∃ tokens, tokenize "1 2" = .ok tokens ∧
      (2 : ℤ) = tokens.countP Token.isNumber - tokens.countP Token.isBinary) ∧
    (evaluateWith .empty "1 * 2" = .error (.unsupported "*") ∧
      ∃ tokens symbol, tokenize "1 * 2" = .ok tokens ∧ .op symbol ∈ tokens ∧
        symbol ∈ "1 * 2".toList ∧ symbol ∈ ['+', '-', '*', '/'] ∧ "*" = String.singleton symbol) ∧
    ∀ program, Postfix.ofInfix [.lpar, .num "1", .rpar] = .ok program → .lpar ∉ program := by
  have hunderflow : evaluate "1 +" = .error (.machine (.underflow "+")) := by decide +kernel
  have hmalformed : evaluate "1 2" = .error (.machine (.malformed 2)) := by decide +kernel
  have hunknown : evaluateWith .empty "1 * 2" = .error (.unsupported "*") := by decide +kernel
  have htokens : tokenize "(1)" = .ok [.lpar, .num "1", .rpar] := by decide +kernel
  obtain ⟨-, -, -, -, hoperator, -⟩ := internal_errors_unreachable "1 +"
  obtain ⟨-, -, -, -, -, hremaining, -⟩ := internal_errors_unreachable "1 2"
  obtain ⟨-, -, -, -, -, -, hplain, -⟩ := internal_errors_unreachable "(1)"
  obtain ⟨-, -, -, -, -, -, -, hsymbol⟩ := internal_errors_unreachable "1 * 2"
  exact ⟨⟨hunderflow, hoperator "+" hunderflow⟩, ⟨hmalformed, (hremaining 2 hmalformed).2⟩,
    ⟨hunknown, hsymbol .empty "*" hunknown⟩, fun program h => (hplain _ program htokens h).1⟩

end Expression

end PostfixCalc
