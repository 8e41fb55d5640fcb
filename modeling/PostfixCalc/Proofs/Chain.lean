import PostfixCalc.Job
import PostfixCalc.Proofs.Grammar
import PostfixCalc.Proofs.Lexing

/-!
# Folding numbers and evaluating chains

Numbers can be folded with an operation that is known by its symbol or its
word, or they can be typed as a chain, an expression with the symbol between
any two of them. A minus in front of a number is part of the number when a list
is read, and an operator of its own when an expression is.

Results:
* `Signed.read?_text`, `Signed.evaluate_tree`: a minus in front of a literal
  negates it, read either way.
* `Chain.tokenize_text`, `Chain.derives_tree`: a chain is read as the tree that
  leans to the left.
* `Chain.evaluate_tree`: the value of this tree is a fold over the numbers.
* `Chain.reduce_eq_evaluate`: folding the numbers of a list and evaluating them
  as a chain is the same.
-/

namespace PostfixCalc

open Token

/-! ## Signed literals -/

/-- A literal that the lexer accepts, with or without a minus in front. -/
structure Signed where
  negative : Bool
  literal : String
  accepted : tokenize literal = .ok [.num literal]

namespace Signed

variable (w : Signed)

/-- The literal as typed. -/
def text : String := if w.negative then "-" ++ w.literal else w.literal

/-- Its tokens where an operand is awaited. -/
def tokens : List Token := if w.negative then [.neg, .num w.literal] else [.num w.literal]

/-- Its syntax tree. -/
def tree : Tree := if w.negative then .neg (.num w.literal) else .num w.literal

/-- The number that it names. -/
def value : Float :=
  let magnitude := (Scalar.read? w.literal).getD 0
  if w.negative then -magnitude else magnitude

theorem exists_numeral : ∃ n : Numeral, n.WellFormed ∧ n.decimal.value < Binary64.overflow ∧
    w.literal = n.literal ∧ w.literal.toList = n.text := by
  obtain ⟨hliteral, -⟩ := canonicalAfter_iff.mp (CanonicalAfter.lexed w.accepted).1
  obtain ⟨n, hn, hvalue, heq⟩ := hliteral w.literal (List.mem_singleton_self _)
  exact ⟨n, hn, hvalue, heq, by rw [heq, Numeral.literal, String.toList_ofList]⟩

/-- A minus and a literal are read as the negated number. -/
theorem read?_text : Scalar.read? w.text = some w.value := by
  obtain ⟨n, hn, -, -, hchars⟩ := w.exists_numeral
  obtain ⟨hplain, hminus⟩ := Scalar.readChars?_text hn
  unfold value text Scalar.read?
  cases w.negative
  · simp [hchars, hplain]
  · simp [hchars, hplain, hminus]

/-- A unary minus and a literal have the negated number as value. -/
theorem evaluate_tree (r : Registry) : w.tree.evaluate r = .ok w.value := by
  obtain ⟨n, hn, -, -, hchars⟩ := w.exists_numeral
  have hread : Scalar.read? w.literal = some n.decimal.toFloat := by
    rw [Scalar.read?, hchars, (Scalar.readChars?_text hn).1]
  unfold value tree
  cases w.negative
  · simp [Tree.evaluate, hread]
  · simp [Tree.evaluate, hread, Except.map]

theorem toList_text_ne_nil : w.text.toList ≠ [] := by
  intro hnil
  have hread := w.read?_text
  rw [Scalar.read?, hnil] at hread
  cases hread

theorem isBlank_of_mem_text : ∀ c ∈ w.text.toList, Text.isBlank c = false := by
  obtain ⟨n, hn, -, -, hchars⟩ := w.exists_numeral
  have hblank := Token.isBlank_of_mem_text hn
  rw [← hchars] at hblank
  unfold text
  cases w.negative
  · exact hblank
  · intro c hc
    rcases List.mem_cons.mp (show c ∈ '-' :: w.literal.toList by simpa using hc) with rfl | hc
    · decide
    · exact hblank c hc

/-- Each word of a list is read as the number that it names. -/
theorem readWords_text (ws : List Signed) :
    readWords (ws.map fun w => w.text.toList) = .ok (ws.map Signed.value) :=
  readWords_map (fun w : Signed => w.read?_text) ws

theorem derives_tree : Derives 0 3 w.tokens w.tree := by
  unfold tokens tree
  cases w.negative
  · exact .lift (.num w.literal)
  · exact .neg (.lift (.num w.literal))

/-- Where an operand is awaited, the minus is unary and the literal is lexed whole. -/
theorem lexFrom_text {previous : Option Token} {rest : List Char} {tokens : List Token}
    (hp : previous.all awaitsOperand = true) (hr : Numeral.Stops rest)
    (hrest : ∀ position, lexFrom position (some (.num w.literal)) rest = .ok tokens)
    (position : ℕ) :
    lexFrom position previous (w.text.toList ++ rest) = .ok (w.tokens ++ tokens) := by
  obtain ⟨n, hn, hvalue, hliteral, hchars⟩ := w.exists_numeral
  have hlex : ∀ position previous, lexFrom position previous (w.literal.toList ++ rest) =
      .ok (.num w.literal :: tokens) := by
    intro position previous
    have hlex := lexFrom_literal_append hn hvalue hr position previous
    rw [← hliteral, hrest] at hlex
    rw [hchars, hlex]
    rfl
  unfold text Signed.tokens
  cases w.negative
  · exact hlex position previous
  · obtain ⟨c, hwritten, hblank, hc⟩ := exists_ofSymbol? (t := .neg) hp rfl
    obtain rfl : c = '-' := (List.singleton_inj.mp hwritten).symm
    simp only [if_true, String.toList_append]
    show lexFrom position previous ('-' :: (w.literal.toList ++ rest)) = _
    rw [lexFrom_symbol hblank hc, hlex]
    rfl

end Signed

/-! ## Chains -/

/-- An operand after the symbol, with white space at choice around the symbol. -/
structure Link where
  before : String
  after : String
  operand : Signed
  blank_before : ∀ c ∈ before.toList, Text.isBlank c = true
  blank_after : ∀ c ∈ after.toList, Text.isBlank c = true

/-- Operands with one symbol between any two of them. -/
structure Chain where
  first : Signed
  links : List Link

namespace Link

variable (symbol : Char) (l : Link)

/-- The symbol and the operand as typed. -/
def text : String := l.before ++ String.singleton symbol ++ l.after ++ l.operand.text

/-- Their tokens after an operand. -/
def tokens : List Token := .op symbol :: l.operand.tokens

theorem toList_text : (l.text symbol).toList =
    l.before.toList ++ symbol :: (l.after.toList ++ l.operand.text.toList) := by
  simp [text]

end Link

namespace Chain

variable {symbol : Char} (c : Chain)

/-- All operands in order. -/
def operands : List Signed := c.first :: c.links.map Link.operand

/-- The chain as typed. -/
def text (symbol : Char) : String := c.first.text ++ String.join (c.links.map (Link.text symbol))

/-- Its tokens. -/
def tokens (symbol : Char) : List Token := c.first.tokens ++ c.links.flatMap (Link.tokens symbol)

/-- Its syntax tree, in which each link has all that is before it as left operand. -/
def tree (symbol : Char) : Tree :=
  c.links.foldl (fun left l => .bin symbol left l.operand.tree) c.first.tree

/-! ## Reading a chain -/

/-- After a number each of the four symbols is a binary operator. -/
theorem ofSymbol?_after_num (h : symbol ∈ ['+', '-', '*', '/']) (literal : String) :
    Text.isBlank symbol = false ∧ ofSymbol? (some (.num literal)) symbol = some (.op symbol) := by
  simp only [List.mem_cons, List.not_mem_nil, or_false] at h
  rcases h with rfl | rfl | rfl | rfl <;> exact ⟨by decide, rfl⟩

/-- A link goes on with white space or the symbol. -/
theorem stops_links (h : symbol ∈ ['+', '-', '*', '/']) (links : List Link) :
    Numeral.Stops (links.flatMap fun l => (l.text symbol).toList) := by
  rcases links with _ | ⟨l, links⟩
  · rintro d ⟨⟩
  · rw [List.flatMap_cons, Link.toList_text]
    rcases hbefore : l.before.toList with _ | ⟨d, before⟩
    · exact stops_of_ofSymbol? _ (ofSymbol?_after_num h "").2
    · exact stops_of_isBlank _ (l.blank_before d (hbefore ▸ List.mem_cons_self ..))

/-- After a number the links are lexed one by one. -/
theorem lexFrom_links (h : symbol ∈ ['+', '-', '*', '/']) (links : List Link) (literal : String)
    (position : ℕ) :
    lexFrom position (some (.num literal)) (links.flatMap fun l => (l.text symbol).toList) =
      .ok (links.flatMap (Link.tokens symbol)) := by
  induction links generalizing literal position with
  | nil => exact lexFrom_nil
  | cons l links ih =>
    obtain ⟨hblank, hc⟩ := ofSymbol?_after_num h literal
    have hawaits : (some (Token.op symbol)).all awaitsOperand = true := rfl
    have hoperand := l.operand.lexFrom_text hawaits (stops_links h links) (ih l.operand.literal)
    rw [List.flatMap_cons, Link.toList_text, List.append_assoc, lexFrom_blanks l.blank_before,
      List.cons_append, lexFrom_symbol hblank hc, List.append_assoc, lexFrom_blanks l.blank_after,
      hoperand]
    rfl

/-- A chain is lexed as its tokens: a minus negates in front of a literal and
    subtracts after one. -/
theorem tokenize_text (h : symbol ∈ ['+', '-', '*', '/']) :
    tokenize (c.text symbol) = .ok (c.tokens symbol) := by
  rw [tokenize, text, String.toList_append, String.toList_join, List.flatMap_map]
  exact c.first.lexFrom_text rfl (stops_links h c.links) (lexFrom_links h c.links _) 0

/-- A phrase of the level of the symbol goes on with links. -/
theorem derives_foldl (links : List Link) {left : List Token} {t : Tree}
    (h : Derives 0 (level symbol) left t) :
    Derives 0 (level symbol) (left ++ links.flatMap (Link.tokens symbol))
      (links.foldl (fun left l => .bin symbol left l.operand.tree) t) := by
  induction links generalizing left t with
  | nil => simpa using h
  | cons l links ih =>
    have hlevel := level_le symbol
    have hright := l.operand.derives_tree.of_le (by omega : level symbol + 1 ≤ 3)
    have hnext := ih (.bin h hright)
    rwa [List.append_assoc] at hnext

/-- A chain is a phrase of the level of its symbol. -/
theorem derives_tree (symbol : Char) :
    Derives 0 (level symbol) (c.tokens symbol) (c.tree symbol) := by
  have hlevel := level_le symbol
  exact derives_foldl c.links (c.first.derives_tree.of_le (by omega))

/-! ## The value of a chain -/

/-- The first error of the fold over the links is the error of the tree. -/
theorem evaluate_foldl {r : Registry} {operation : Operation}
    (h : r.resolve (String.singleton symbol) = .ok operation) (links : List Link) (t : Tree) :
    (links.foldl (fun left l => Tree.bin symbol left l.operand.tree) t).evaluate r =
      t.evaluate r >>= fun a =>
        ((links.map fun l => l.operand.value).foldlM operation a).mapError .arithmetic := by
  induction links generalizing t with
  | nil =>
    rw [List.foldl_nil]
    cases t.evaluate r <;> rfl
  | cons l links ih =>
    rw [List.foldl_cons, ih, Tree.evaluate]
    cases t.evaluate r with
    | error e => rfl
    | ok a =>
      simp only [l.operand.evaluate_tree, h, bind, Except.bind, List.map_cons, List.foldlM_cons]
      cases operation a l.operand.value <;> rfl

/-- The value of the tree is the fold of the operation over the numbers. -/
theorem evaluate_tree {r : Registry} {operation : Operation}
    (h : r.resolve (String.singleton symbol) = .ok operation) :
    (c.tree symbol).evaluate r =
      ((c.links.map fun l => l.operand.value).foldlM operation c.first.value).mapError
        .arithmetic := by
  rw [tree, evaluate_foldl h, c.first.evaluate_tree]
  rfl

/-- With any operations, a chain has the value that folding its numbers has. -/
theorem reduce_operands {r : Registry} {key : String} {operation : Operation}
    (hsymbol : symbol ∈ ['+', '-', '*', '/']) (hkey : r.resolve key = .ok operation)
    (h : r.resolve (String.singleton symbol) = .ok operation) :
    reduce r key (c.operands.map Signed.value) = Expression.evaluateWith r (c.text symbol) := by
  have hlex := c.tokenize_text hsymbol
  have hpostfix := Postfix.ofInfix_derives (c.derives_tree symbol)
  rw [Expression.evaluateWith_of_tokens hlex hpostfix, Machine.evaluate_program, c.evaluate_tree h,
    operands, List.map_cons, reduce_cons hkey, List.map_map]
  rfl

/-- The operands typed as a list are read one by one. -/
theorem readNumbers_operands :
    readNumbers (" ".intercalate (c.operands.map Signed.text)) =
      .ok (c.operands.map Signed.value) := by
  have hwords : Text.words (" ".intercalate (c.operands.map Signed.text)).toList =
      c.operands.map fun w => w.text.toList := by
    rw [String.toList_intercalate, List.map_map]
    refine Text.words_intercalate ?_ ?_ <;> intro w hw <;> obtain ⟨v, -, rfl⟩ := List.mem_map.mp hw
    · exact v.toList_text_ne_nil
    · exact v.isBlank_of_mem_text
  rw [readNumbers, hwords]
  exact Signed.readWords_text c.operands

/-- **Folding a list and evaluating a chain agree**, down to the division by
    zero, whether the operation is named by its symbol or its word. -/
theorem reduce_eq_evaluate {word : String}
    (h : (symbol, word) ∈ [('+', "add"), ('-', "subtract"), ('*', "multiply"), ('/', "divide")]) :
    ∃ numbers, readNumbers (" ".intercalate (c.operands.map Signed.text)) = .ok numbers ∧
      reduce .standard (String.singleton symbol) numbers = Expression.evaluate (c.text symbol) ∧
      reduce .standard word numbers = Expression.evaluate (c.text symbol) ∧
      ((∃ v, Expression.evaluate (c.text symbol) = .ok v) ∨
        Expression.evaluate (c.text symbol) = .error (.arithmetic .divisionByZero)) := by
  obtain ⟨operation, hresolve, hword⟩ := Registry.exists_resolve_standard h
  have hsymbol : symbol ∈ ['+', '-', '*', '/'] := by
    simpa using List.mem_map_of_mem (f := Prod.fst) h
  have hfold := c.reduce_operands hsymbol hresolve hresolve
  refine ⟨_, c.readNumbers_operands, hfold, c.reduce_operands hsymbol hword hresolve, ?_⟩
  rw [Expression.evaluate, ← hfold]
  exact reduce_ok_or_divisionByZero hresolve _

/-- `1--2` subtracts the negated 2, as the list `1 -2` does. In `6 / -0/ .5` the
    first division is by a zero. -/
theorem reduce_eq_evaluate_samples :
    (∃ numbers, readNumbers "1 -2" = .ok numbers ∧
      reduce .standard "-" numbers = Expression.evaluate "1--2" ∧
      reduce .standard "subtract" numbers = Expression.evaluate "1--2" ∧
      Expression.evaluate "1--2" = .ok 3) ∧
    (∃ numbers, readNumbers "6 -0 .5" = .ok numbers ∧
      reduce .standard "/" numbers = Expression.evaluate "6 / -0/ .5" ∧
      reduce .standard "divide" numbers = Expression.evaluate "6 / -0/ .5" ∧
      Expression.evaluate "6 / -0/ .5" = .error (.arithmetic .divisionByZero)) := by
  let one : Signed := ⟨false, "1", by decide +kernel⟩
  let two : Signed := ⟨true, "2", by decide +kernel⟩
  let six : Signed := ⟨false, "6", by decide +kernel⟩
  let zero : Signed := ⟨true, "0", by decide +kernel⟩
  let half : Signed := ⟨false, ".5", by decide +kernel⟩
  let difference : Chain := ⟨one, [⟨"", "", two, by simp, by simp⟩]⟩
  let quotient : Chain :=
    ⟨six, [⟨" ", " ", zero, by simp [Text.isBlank], by simp [Text.isBlank]⟩,
      ⟨"", " ", half, by simp, by simp [Text.isBlank]⟩]⟩
  have hdifference : difference.text '-' = "1--2" := by decide +kernel
  have hquotient : quotient.text '/' = "6 / -0/ .5" := by decide +kernel
  obtain ⟨xs, hread, hsymbol, hword, -⟩ :=
    reduce_eq_evaluate difference (show ('-', "subtract") ∈ _ by simp)
  obtain ⟨ys, hread', hsymbol', hword', -⟩ :=
    reduce_eq_evaluate quotient (show ('/', "divide") ∈ _ by simp)
  rw [hdifference] at hsymbol hword
  rw [hquotient] at hsymbol' hword'
  exact ⟨⟨xs, hread, hsymbol, hword, by decide +kernel⟩,
    ⟨ys, hread', hsymbol', hword', by decide +kernel⟩⟩

end Chain

end PostfixCalc
