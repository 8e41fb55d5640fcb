import PostfixCalc.Proofs.Grammar
import PostfixCalc.Proofs.Lexing
import PostfixCalc.Proofs.Parentheses

/-!
# Which texts have a value

No stage of the calculator asks for an infix expression. The lexer sees to the
symbols, the conversion to the parentheses, and the machine to the postfix
order. What is left open is that operands and operators alternate: a list that
does is an expression, and one that does not is still computed if its postfix
order happens to be a program.

Results:
* `Derives.alternates`: the tokens of an expression alternate.
* `exists_derives`: a list that alternates, with matched parentheses, is an
  expression.
* `derives_iff`: a tree is the syntax tree of a list with its program exactly if
  the list alternates.
* `Expression.evaluate_ok_iff`: the texts that have a value, and which of them
  are expressions.
* `Expression.evaluate_postfix_text`: a text with a value that is none.
-/

namespace PostfixCalc

namespace Token

/-- Whether the token can only stand where an operand is awaited. -/
def startsOperand : Token → Bool
  | num _ | neg | lpar => true
  | op _ | rpar => false

/-- Every token that starts an operand stands where one is awaited, which is at
    the start if `awaiting` and later after an operator or an opening
    parenthesis, and every other token and the end do not. -/
def alternates (awaiting : Bool) : List Token → Bool
  | [] => !awaiting
  | t :: tokens => (t.startsOperand == awaiting) && alternates t.awaitsOperand tokens

end Token

open Token

/-! ## Expressions alternate -/

/-- A phrase takes the place of one operand. -/
theorem Derives.alternates_append {start k : ℕ} {tokens : List Token} {t : Tree}
    (h : Derives start k tokens t) :
    ∀ rest, alternates true (tokens ++ rest) = alternates false rest := by
  induction h with
  | num literal => intro rest; rfl
  | @paren tokens t _ ih =>
    intro rest
    show alternates true (tokens ++ [rpar] ++ rest) = _
    rw [List.append_assoc, ih]
    rfl
  | neg _ ih => exact ih
  | @bin symbol left right a b _ _ ihl ihr =>
    intro rest
    rw [List.append_assoc, ihl]
    exact ihr rest
  | lift _ ih => exact ih

/-- The tokens of an expression alternate. -/
theorem Derives.alternates {start k : ℕ} {tokens : List Token} {t : Tree}
    (h : Derives start k tokens t) : Token.alternates true tokens = true := by
  have hend := h.alternates_append []
  rwa [List.append_nil] at hend

/-! ## What alternates is an expression -/

namespace Derives

/-- A phrase goes on with any symbol that its level admits and one more operand:
    the symbol joins the operand to the longest end of the phrase that binds
    more tightly. -/
theorem append_op {start k : ℕ} {left right : List Token} {a b : Tree} {symbol : Char}
    (h : Derives start k left a) (hk : k ≤ level symbol) (hr : Derives start 3 right b) :
    ∃ t, Derives start k (left ++ op symbol :: right) t := by
  have hlevel := level_le symbol
  have hright : Derives start (level symbol + 1) right b := hr.of_le (by omega)
  induction h with
  | num literal => omega
  | paren _ _ => omega
  | neg _ _ => omega
  | @bin other first second a₁ a₂ hl hs _ ihr =>
    rcases Nat.eq_or_lt_of_le hk with heq | hlt
    · have hleft := Derives.bin hl hs
      rw [heq] at hleft ⊢
      exact ⟨_, .bin hleft hright⟩
    · obtain ⟨t, ht⟩ := ihr hlt
      rw [List.append_assoc]
      exact ⟨_, .bin hl ht⟩
  | @lift k left a hl ih =>
    rcases Nat.eq_or_lt_of_le hk with heq | hlt
    · have hleft := hl.lift
      rw [heq] at hleft ⊢
      exact ⟨_, .bin hleft hright⟩
    · obtain ⟨t, ht⟩ := ih hlt
      exact ⟨t, ht.lift⟩

end Derives

/-- The tokens read since the last open parenthesis: if an operand is awaited,
    any operand makes them a phrase, and else they are a phrase already. -/
def Ready (start : ℕ) (awaiting : Bool) (done : List Token) : Prop :=
  if awaiting then
    ∀ operand b, Derives start 3 operand b → ∃ t, Derives start start (done ++ operand) t
  else ∃ t, Derives start start done t

namespace Ready

variable {start : ℕ} {done : List Token}

theorem nil (hstart : start ≤ 3) : Ready start true [] :=
  fun _ b hb => ⟨b, hb.of_le hstart⟩

theorem num (h : Ready start true done) (literal : String) :
    Ready start false (done ++ [.num literal]) :=
  h [.num literal] _ (.lift (.num literal))

theorem neg (h : Ready start true done) : Ready start true (done ++ [.neg]) := by
  intro operand b hb
  rw [List.append_assoc]
  exact h _ _ hb.neg

theorem op (h : Ready start false done) {symbol : Char} (hs : start ≤ level symbol) :
    Ready start true (done ++ [.op symbol]) := by
  obtain ⟨a, ha⟩ := h
  intro operand b hb
  rw [List.append_assoc]
  exact ha.append_op hs hb

/-- A phrase in parentheses is an operand. -/
theorem close {before : List Token} (hbefore : Ready start true before)
    (h : Ready start false done) : Ready start false (before ++ .lpar :: done ++ [.rpar]) := by
  obtain ⟨a, ha⟩ := h
  rw [List.append_assoc]
  exact hbefore _ _ (.lift (.paren ha))

end Ready

/-- The tokens read so far: those before each open parenthesis, the innermost
    one first, and those after the last. -/
def enclose : List (List Token) → List Token → List Token
  | [], done => done
  | before :: outer, done => enclose outer (before ++ .lpar :: done)

theorem enclose_append (outer : List (List Token)) (done rest : List Token) :
    enclose outer (done ++ rest) = enclose outer done ++ rest := by
  induction outer generalizing done with
  | nil => rfl
  | cons before outer ih =>
    rw [enclose, enclose, ← ih, List.append_assoc, List.cons_append]

/-- One more token is read. -/
theorem enclose_cons (outer : List (List Token)) (done : List Token) (t : Token)
    (rest : List Token) :
    enclose outer done ++ t :: rest = enclose outer (done ++ [t]) ++ rest := by
  rw [enclose_append, List.append_assoc, List.singleton_append]

/-- Reading what alternates: with each open parenthesis where an operand is
    awaited, the tokens before and after it stay ready for the rest. -/
theorem exists_derives {start : ℕ} (hstart : start ≤ 3) {rest : List Token}
    (hsymbol : ∀ x, op x ∈ rest → start ≤ level x) {awaiting : Bool}
    {outer : List (List Token)} {done : List Token}
    (houter : ∀ before ∈ outer, Ready start true before) (hdone : Ready start awaiting done)
    (halternates : alternates awaiting rest = true)
    (hnesting : nesting outer.length rest = .ok 0) :
    ∃ t, Derives start start (enclose outer done ++ rest) t := by
  induction rest generalizing awaiting outer done with
  | nil =>
    have hempty : outer = [] := List.length_eq_zero_iff.mp (Except.ok.inj hnesting)
    cases awaiting with
    | true => cases halternates
    | false =>
      rw [hempty, List.append_nil]
      exact hdone
  | cons t rest ih =>
    rw [alternates, Bool.and_eq_true, beq_iff_eq] at halternates
    obtain ⟨rfl, halternates⟩ := halternates
    have hrest : ∀ x, op x ∈ rest → start ≤ level x :=
      fun x hx => hsymbol x (List.mem_cons_of_mem _ hx)
    rw [nesting_cons] at hnesting
    cases t with
    | num literal =>
      rw [enclose_cons]
      exact ih hrest houter (hdone.num literal) halternates hnesting
    | op symbol =>
      rw [enclose_cons]
      exact ih hrest houter (hdone.op (hsymbol symbol (List.mem_cons_self ..))) halternates hnesting
    | neg =>
      rw [enclose_cons]
      exact ih hrest houter hdone.neg halternates hnesting
    | lpar =>
      have hopen : enclose outer done ++ lpar :: rest = enclose (done :: outer) [] ++ rest :=
        enclose_cons outer done lpar rest
      rw [hopen]
      exact ih hrest (List.forall_mem_cons.mpr ⟨hdone, houter⟩) (.nil hstart) halternates hnesting
    | rpar =>
      rcases outer with _ | ⟨before, outer⟩
      · cases hnesting
      · obtain ⟨hbefore, houter⟩ := List.forall_mem_cons.mp houter
        rw [enclose_cons, enclose, ← List.cons_append, ← List.append_assoc]
        exact ih hrest houter (hbefore.close hdone) halternates hnesting

/-- A tree in whose postfix order a list is converted, with no symbols below the
    level of the whole, is the syntax tree of the list exactly if it alternates. -/
theorem derives_iff {start : ℕ} (hstart : start ≤ 3) {tokens : List Token} {t : Tree}
    (hsymbol : ∀ x, op x ∈ tokens → start ≤ level x)
    (hp : Postfix.ofInfix tokens = .ok t.program) :
    Derives start start tokens t ↔ alternates true tokens = true := by
  constructor
  · intro ht
    exact ht.alternates
  · intro h
    obtain ⟨u, hu⟩ : ∃ u, Derives start start tokens u :=
      exists_derives hstart hsymbol (List.forall_mem_nil _) (.nil hstart) h
        (Postfix.nesting_of_ofInfix hp)
    -- the syntax tree has the same program
    have hprogram := Postfix.ofInfix_derives hu
    rw [hp] at hprogram
    rw [Tree.program_injective (Except.ok.inj hprogram)]
    exact hu

/-! ## Texts with a value -/

/-- The lexer knows the symbols of levels 1 and 2 only. -/
theorem Token.one_le_level_of_tokenize {s : String} {tokens : List Token}
    (h : tokenize s = .ok tokens) : ∀ x, op x ∈ tokens → 1 ≤ level x := by
  intro x hx
  have hsymbol := (canonicalAfter_iff.mp (CanonicalAfter.lexed h).1).2.1 x hx
  rcases hsymbol with rfl | rfl | rfl | rfl <;> decide

namespace Expression

/-- A text is evaluated stage by stage. -/
theorem evaluateWith_ok_iff {r : Registry} {s : String} {v : Float} :
    evaluateWith r s = .ok v ↔ ∃ tokens program, tokenize s = .ok tokens ∧
      Postfix.ofInfix tokens = .ok program ∧ Machine.evaluate r program = .ok v := by
  constructor
  · intro h
    unfold evaluateWith compile at h
    cases hs : tokenize s with
    | error e => rw [hs] at h; cases h
    | ok tokens =>
      cases hp : Postfix.ofInfix tokens with
      | error e => simp [hs, hp, Except.mapError, bind, Except.bind] at h
      | ok program =>
        simp only [hs, hp, Except.mapError, bind, Except.bind, pure, Except.pure] at h
        exact ⟨tokens, program, rfl, hp, h⟩
  · rintro ⟨tokens, program, hs, hp, h⟩
    rw [evaluateWith_of_tokens hs hp, h]

/-- **The texts that have a value** are those whose tokens have the program of a
    tree in postfix order, and the value is that of the tree. Whether there is a
    value or not, the tree is the syntax tree of an infix expression exactly if
    operands and operators alternate. -/
theorem evaluate_ok_iff (s : String) :
    (∀ v, evaluate s = .ok v ↔ ∃ (tokens : List Token) (t : Tree), tokenize s = .ok tokens ∧
      Postfix.ofInfix tokens = .ok t.program ∧ t.evaluate .standard = .ok v) ∧
    ∀ (tokens : List Token) (t : Tree), tokenize s = .ok tokens →
      Postfix.ofInfix tokens = .ok t.program →
        (Derives 1 1 tokens t ↔ Token.alternates true tokens = true) := by
  constructor
  · intro v
    rw [evaluate, evaluateWith_ok_iff]
    constructor
    · rintro ⟨tokens, program, hs, hp, hv⟩
      obtain ⟨t, rfl⟩ := Machine.exists_eq_program_of_evaluate hv
      rw [Machine.evaluate_program] at hv
      exact ⟨tokens, t, hs, hp, hv⟩
    · rintro ⟨tokens, t, hs, hp, hv⟩
      exact ⟨tokens, t.program, hs, hp, by rw [Machine.evaluate_program, hv]⟩
  · intro tokens t hs hp
    exact derives_iff (by decide) (Token.one_le_level_of_tokenize hs) hp

/-- A product is the expression that its tree says, and so is a quotient without
    a value. A sum with its operator behind the operands is none. -/
theorem evaluate_ok_iff_samples :
    (evaluate "2 * -3" = .ok (-6) ∧
      Derives 1 1 [.num "2", .op '*', .neg, .num "3"] (.bin '*' (.num "2") (.neg (.num "3")))) ∧
    Derives 1 1 [.num "1", .op '/', .num "0"] (.bin '/' (.num "1") (.num "0")) ∧
    ¬ Derives 1 1 [.num "1", .num "2", .op '+'] (.bin '+' (.num "1") (.num "2")) := by
  have hproduct : tokenize "2 * -3" = .ok [.num "2", .op '*', .neg, .num "3"] := by decide +kernel
  have hquotient : tokenize "1 / 0" = .ok [.num "1", .op '/', .num "0"] := by decide +kernel
  have hpostfix : tokenize "1 2 +" = .ok [.num "1", .num "2", .op '+'] := by decide +kernel
  have hvalue : Tree.evaluate .standard (.bin '*' (.num "2") (.neg (.num "3"))) = .ok (-6) := by
    decide +kernel
  refine ⟨⟨((evaluate_ok_iff "2 * -3").1 _).mpr ⟨_, _, hproduct, by decide, hvalue⟩, ?_⟩, ?_, ?_⟩
  · exact ((evaluate_ok_iff "2 * -3").2 _ _ hproduct (by decide)).mpr (by decide)
  · exact ((evaluate_ok_iff "1 / 0").2 _ _ hquotient (by decide)).mpr (by decide)
  · rw [(evaluate_ok_iff "1 2 +").2 _ _ hpostfix (by decide)]
    decide

/-- `1 2 +` is no infix expression and has a value. -/
theorem evaluate_postfix_text :
    ¬ ∀ s v, evaluate s = .ok v → ∃ tokens t, tokenize s = .ok tokens ∧ Derives 1 1 tokens t := by
  intro h
  have hvalue : evaluate "1 2 +" = .ok 3 := by decide +kernel
  have htokens : tokenize "1 2 +" = .ok [.num "1", .num "2", .op '+'] := by decide +kernel
  obtain ⟨tokens, t, hs, ht⟩ := h "1 2 +" 3 hvalue
  rw [htokens] at hs
  rw [← Except.ok.inj hs] at ht
  exact absurd ht.alternates (by decide)

end Expression

end PostfixCalc
