import PostfixCalc.Proofs.Literal
import PostfixCalc.Proofs.Outcome
import PostfixCalc.Proofs.Program

/-!
# The lexical language

A token list that the lexer can produce is canonical: its numbers are literals,
its symbols are the four, and each minus negates exactly where an operand is
awaited. The text of such a list is its tokens in order with white space around
them, which may be missing except between two numbers. The lexer reads exactly
these texts, and reads them back to the list.

Results:
* `CanonicalAfter.lexed`: what the lexer produces after a token is canonical
  after it, and is spelled by the text.
* `lexFrom_layout`: a canonical list is read back from any layout.
* `canonical_iff`: the rule for each minus, with and without a state.
* `tokenize_exact`: the lexer accepts exactly its lexical language.
-/

namespace PostfixCalc

namespace Token

/-! ## Spelling -/

/-- The characters of a token in a text; both minuses are `-`. -/
def written : Token → List Char
  | num literal => literal.toList
  | op symbol => [symbol]
  | neg => ['-']
  | lpar => ['(']
  | rpar => [')']

/-- Tokens with the white space after each, preceded by the white space `blank`. -/
def layout (blank : List Char) (spaced : List (Token × List Char)) : List Char :=
  blank ++ spaced.flatMap fun p => p.1.written ++ p.2

theorem layout_nil (blank : List Char) : layout blank [] = blank := by
  simp [layout]

theorem layout_cons (blank : List Char) (t : Token) (after : List Char)
    (spaced : List (Token × List Char)) :
    layout blank ((t, after) :: spaced) = blank ++ (t.written ++ layout after spaced) := by
  simp [layout]

/-! ## Canonical token lists -/

/-- The token lists of the lexical language: numbers are literals, symbols are
    the four, and a minus is unary exactly if it comes first or directly after
    an operator or an opening parenthesis. -/
structure Canonical (tokens : List Token) : Prop where
  literal : ∀ l, num l ∈ tokens → IsLiteral l
  symbol : ∀ x, op x ∈ tokens → x = '+' ∨ x = '-' ∨ x = '*' ∨ x = '/'
  minus : ∀ before t after, tokens = before ++ t :: after → t = neg ∨ t = op '-' →
    (t = neg ↔ ∀ p ∈ before.getLast?, p = neg ∨ p = lpar ∨ ∃ x, p = op x)

/-- Whether the lexical language has the token after `previous`. -/
def Admissible (previous : Option Token) : Token → Prop
  | num l => IsLiteral l
  | op x => x = '+' ∨ x = '*' ∨ x = '/' ∨ x = '-' ∧ previous.all awaitsOperand = false
  | neg => previous.all awaitsOperand = true
  | lpar | rpar => True

/-- Canonical lists by recursion: each token is admissible after the one before. -/
def CanonicalAfter (previous : Option Token) : List Token → Prop
  | [] => True
  | t :: tokens => Admissible previous t ∧ CanonicalAfter (some t) tokens

theorem awaitsOperand_iff {t : Token} :
    t.awaitsOperand = true ↔ t = neg ∨ t = lpar ∨ ∃ x, t = op x := by
  cases t <;> simp [awaitsOperand]

theorem all_awaitsOperand_iff {previous : Option Token} :
    previous.all awaitsOperand = true ↔
      ∀ p ∈ previous, p = neg ∨ p = lpar ∨ ∃ x, p = op x := by
  cases previous <;> simp [awaitsOperand_iff]

/-- The rule for each minus, over all places of a list that follows `previous`. -/
def MinusRule (previous : Option Token) (tokens : List Token) : Prop :=
  ∀ before t after, tokens = before ++ t :: after → t = neg ∨ t = op '-' →
    (t = neg ↔ (before.getLast?.or previous).all awaitsOperand = true)

theorem minusRule_nil (previous : Option Token) : MinusRule previous [] := by
  intro before t after h
  simp at h

/-- The last token of a list that is not empty, whatever is before the list. -/
theorem getLast?_cons_or (t : Token) (tokens : List Token) (previous : Option Token) :
    (t :: tokens).getLast?.or previous = tokens.getLast?.or (some t) := by
  rw [List.getLast?_cons]
  cases tokens.getLast? <;> rfl

/-- The rule at the first place and at all later ones. -/
theorem minusRule_cons {previous : Option Token} {t : Token} {tokens : List Token} :
    MinusRule previous (t :: tokens) ↔
      (t = neg ∨ t = op '-' → (t = neg ↔ previous.all awaitsOperand = true)) ∧
        MinusRule (some t) tokens := by
  have hlast : ∀ before : List Token,
      ((t :: before).getLast?).or previous = before.getLast?.or (some t) :=
    fun before => getLast?_cons_or t before previous
  constructor
  · intro h
    refine ⟨h [] t tokens rfl, fun before u after hsplit hu => ?_⟩
    rw [← hlast]
    exact h (t :: before) u after (by rw [hsplit, List.cons_append]) hu
  · rintro ⟨hfirst, hrest⟩ before u after hsplit hu
    rcases before with _ | ⟨v, before⟩
    · obtain ⟨rfl, -⟩ := List.cons.inj hsplit
      exact hfirst hu
    · obtain ⟨rfl, htail⟩ := List.cons.inj hsplit
      rw [hlast]
      exact hrest before u after htail hu

theorem admissible_iff {previous : Option Token} {t : Token} :
    Admissible previous t ↔
      (∀ l, t = num l → IsLiteral l) ∧
      (∀ x, t = op x → x = '+' ∨ x = '-' ∨ x = '*' ∨ x = '/') ∧
      (t = neg ∨ t = op '-' → (t = neg ↔ previous.all awaitsOperand = true)) := by
  cases t with
  | num l => simp [Admissible]
  | op x =>
    by_cases hx : x = '-'
    · subst hx; simp [Admissible]
    · simp [Admissible, hx]
  | neg => simp [Admissible]
  | lpar => simp [Admissible]
  | rpar => simp [Admissible]

theorem canonicalAfter_iff {previous : Option Token} {tokens : List Token} :
    CanonicalAfter previous tokens ↔
      (∀ l, num l ∈ tokens → IsLiteral l) ∧
      (∀ x, op x ∈ tokens → x = '+' ∨ x = '-' ∨ x = '*' ∨ x = '/') ∧
      MinusRule previous tokens := by
  induction tokens generalizing previous with
  | nil => simp [CanonicalAfter, minusRule_nil]
  | cons t tokens ih =>
    rw [CanonicalAfter, ih, admissible_iff, minusRule_cons]
    simp only [List.mem_cons, or_imp, forall_and, eq_comm (a := t)]
    tauto

/-- The rule for each minus needs no more state than the token before. -/
theorem canonical_iff {tokens : List Token} :
    Canonical tokens ↔ CanonicalAfter none tokens := by
  rw [canonicalAfter_iff]
  constructor
  · intro h
    refine ⟨h.literal, h.symbol, fun before t after hsplit ht => ?_⟩
    rw [Option.or_none, all_awaitsOperand_iff]
    exact h.minus before t after hsplit ht
  · rintro ⟨hliteral, hsymbol, hminus⟩
    refine ⟨hliteral, hsymbol, fun before t after hsplit ht => ?_⟩
    rw [← all_awaitsOperand_iff, ← Option.or_none (o := before.getLast?)]
    exact hminus before t after hsplit ht

/-! ## White space -/

/-- All that the layout puts between the tokens is white space. -/
structure Spaces (blank : List Char) (spaced : List (Token × List Char)) : Prop where
  first : ∀ c ∈ blank, Text.isBlank c = true
  rest : ∀ p ∈ spaced, ∀ c ∈ p.2, Text.isBlank c = true

theorem Spaces.tail {blank after : List Char} {t : Token} {spaced : List (Token × List Char)}
    (h : Spaces blank ((t, after) :: spaced)) : Spaces after spaced :=
  ⟨h.rest _ (List.mem_cons_self ..), fun p hp => h.rest p (List.mem_cons_of_mem _ hp)⟩

/-- White space stands between any two numbers in a row. -/
def Separated (spaced : List (Token × List Char)) : Prop :=
  spaced.IsChain fun p q => p.1.isNumber = true → q.1.isNumber = true → p.2 ≠ []

/-! ## What the lexer produces -/

/-- The token of a character is written as it, and admissible. -/
theorem written_of_ofSymbol? {previous : Option Token} {c : Char} {t : Token}
    (h : ofSymbol? previous c = some t) : t.written = [c] ∧ Admissible previous t := by
  unfold ofSymbol? at h
  split_ifs at h with hl hr hop hminus <;> obtain rfl := Option.some.inj h
  · exact ⟨by rw [hl]; rfl, trivial⟩
  · exact ⟨by rw [hr]; rfl, trivial⟩
  · refine ⟨rfl, ?_⟩
    rcases hop with rfl | rfl | rfl <;> simp [Admissible]
  · subst hminus
    unfold ofMinus
    by_cases hprev : previous.all awaitsOperand = true
    · rw [if_pos hprev]
      exact ⟨rfl, hprev⟩
    · rw [if_neg hprev]
      exact ⟨rfl, .inr (.inr (.inr ⟨rfl, by simpa using hprev⟩))⟩

/-- A text that spells `tokens` still does so with the text of `t` before it. -/
theorem exists_layout_cons {cs : List Char} {tokens : List Token} (t : Token)
    (h : ∃ blank spaced, Spaces blank spaced ∧ spaced.map Prod.fst = tokens ∧
      cs = layout blank spaced) :
    ∃ blank spaced, Spaces blank spaced ∧ spaced.map Prod.fst = t :: tokens ∧
      t.written ++ cs = layout blank spaced := by
  obtain ⟨blank, spaced, hspaces, rfl, rfl⟩ := h
  refine ⟨[], (t, blank) :: spaced, ⟨by simp, ?_⟩, rfl, by rw [layout_cons]; rfl⟩
  intro p hp
  rcases List.mem_cons.mp hp with rfl | hp
  · exact hspaces.first
  · exact hspaces.rest p hp

/-- **Soundness**: what the lexer produces after a token is canonical after it,
    and the text is a layout of it. -/
theorem CanonicalAfter.lexed {position : ℕ} {previous : Option Token} {cs : List Char}
    {tokens : List Token} (h : lexFrom position previous cs = .ok tokens) :
    CanonicalAfter previous tokens ∧
      ∃ blank spaced, Spaces blank spaced ∧ spaced.map Prod.fst = tokens ∧
        cs = layout blank spaced := by
  fun_induction lexFrom position previous cs generalizing tokens with
  | case1 position previous =>
    obtain rfl := Except.ok.inj h
    exact ⟨trivial, [], [], ⟨by simp, by simp⟩, rfl, rfl⟩
  | case2 position previous c cs hc ih =>
    obtain ⟨hcanonical, blank, spaced, hspaces, hmap, rfl⟩ := ih h
    refine ⟨hcanonical, c :: blank, spaced, ⟨?_, hspaces.rest⟩, hmap, rfl⟩
    intro d hd
    rcases List.mem_cons.mp hd with rfl | hd
    · exact hc
    · exact hspaces.first d hd
  | case3 position previous c cs hc t ht ih =>
    obtain ⟨rest, hrest, rfl⟩ := map_eq_ok_iff.mp h
    obtain ⟨hwritten, hadmissible⟩ := written_of_ofSymbol? ht
    obtain ⟨hcanonical, hlayout⟩ := ih hrest
    have hcons := exists_layout_cons t hlayout
    rw [hwritten] at hcons
    exact ⟨⟨hadmissible, hcanonical⟩, hcons⟩
  | case4 position previous c cs hc ht hstart n hfinite =>
    rename_i ih
    obtain ⟨rest, hrest, rfl⟩ := map_eq_ok_iff.mp h
    obtain ⟨hcanonical, hlayout⟩ := ih hrest
    have hcons := exists_layout_cons (num n.literal) hlayout
    have htext : (num n.literal).written ++ (Numeral.scan (c :: cs)).2 = c :: cs := by
      rw [show (num n.literal).written = n.text from String.toList_ofList]
      exact Numeral.text_scan_append (c :: cs)
    rw [htext] at hcons
    exact ⟨⟨isLiteral_of_isFinite hfinite, hcanonical⟩, hcons⟩
  | case5 => cases h
  | case6 => cases h

/-! ## What the lexer reads back -/

/-- White space before a text changes the positions in it only. -/
theorem lexFrom_blanks {blank cs : List Char} (h : ∀ c ∈ blank, Text.isBlank c = true)
    (position : ℕ) (previous : Option Token) :
    lexFrom position previous (blank ++ cs) = lexFrom (position + blank.length) previous cs := by
  induction blank generalizing position with
  | nil => rfl
  | cons c blank ih =>
    rw [List.cons_append, lexFrom_blank (h c (List.mem_cons_self ..)),
      ih (fun d hd => h d (List.mem_cons_of_mem _ hd)), List.length_cons]
    congr 1
    omega

/-- A token other than a number is one character, which the lexer turns into it. -/
theorem exists_ofSymbol? {previous : Option Token} {t : Token} (h : Admissible previous t)
    (ht : t.isNumber = false) :
    ∃ c, t.written = [c] ∧ Text.isBlank c = false ∧ ofSymbol? previous c = some t := by
  cases t with
  | num l => cases ht
  | op x =>
    refine ⟨x, rfl, ?_⟩
    rcases h with rfl | rfl | rfl | ⟨rfl, hprev⟩
    · exact ⟨by decide, rfl⟩
    · exact ⟨by decide, rfl⟩
    · exact ⟨by decide, rfl⟩
    · refine ⟨by decide, ?_⟩
      show some (ofMinus previous) = _
      rw [ofMinus, if_neg (by simpa using hprev)]
  | neg =>
    refine ⟨'-', rfl, by decide, ?_⟩
    show some (ofMinus previous) = _
    rw [ofMinus, if_pos (show previous.all awaitsOperand = true from h)]
  | lpar => exact ⟨'(', rfl, by decide, rfl⟩
  | rpar => exact ⟨')', rfl, by decide, rfl⟩

/-- The start of a literal is neither white space nor a symbol. -/
theorem isBlank_of_startsLiteral {c : Char} (h : startsLiteral c = true) :
    Text.isBlank c = false := by
  rw [startsLiteral, Bool.or_eq_true, beq_iff_eq] at h
  rcases h with h | rfl
  · rw [Char.isDigit, Bool.and_eq_true, decide_eq_true_eq, decide_eq_true_eq] at h
    obtain ⟨hlow, hhigh⟩ := h
    have hlow : 48 ≤ c.toNat := hlow
    have hhigh : c.toNat ≤ 57 := hhigh
    simp only [Text.isBlank, Bool.or_eq_false_iff, Bool.and_eq_false_iff, decide_eq_false_iff_not,
      beq_eq_false_iff_ne]
    omega
  · decide

/-- There is no white space in a literal. -/
theorem isBlank_of_mem_text {n : Numeral} (h : n.WellFormed) :
    ∀ c ∈ n.text, Text.isBlank c = false := by
  intro c hc
  rcases h.of_mem_text hc with hdigit | hmark
  · exact isBlank_of_startsLiteral (by rw [startsLiteral, hdigit, Bool.true_or])
  · simp only [List.mem_cons, List.not_mem_nil, or_false] at hmark
    rcases hmark with rfl | rfl | rfl | rfl | rfl <;> decide

/-- A character that starts a literal is no symbol. -/
theorem ofSymbol?_of_startsLiteral {c : Char} (h : startsLiteral c = true)
    (previous : Option Token) : ofSymbol? previous c = none := by
  have hne : ∀ d, startsLiteral d = false → c ≠ d := by
    rintro d hd rfl
    rw [h] at hd
    cases hd
  unfold ofSymbol?
  rw [if_neg (hne _ (by decide)), if_neg (hne _ (by decide)), if_neg, if_neg (hne _ (by decide))]
  rintro (hc | hc | hc)
  · exact hne '+' (by decide) hc
  · exact hne '*' (by decide) hc
  · exact hne '/' (by decide) hc

/-- Neither white space nor a symbol goes on with a numeral. -/
theorem stops_of_isBlank {c : Char} (cs : List Char) (h : Text.isBlank c = true) :
    Numeral.Stops (c :: cs) := by
  rintro d ⟨⟩
  have hstart : startsLiteral c = false := by
    by_contra hstart
    rw [isBlank_of_startsLiteral (by simpa using hstart)] at h
    cases h
  rw [startsLiteral, Bool.or_eq_false_iff] at hstart
  refine ⟨hstart.1, by simpa using hstart.2, ?_, ?_⟩ <;> rintro rfl <;> exact absurd h (by decide)

theorem stops_of_ofSymbol? {previous : Option Token} {c : Char} {t : Token} (cs : List Char)
    (h : ofSymbol? previous c = some t) : Numeral.Stops (c :: cs) := by
  rintro d ⟨⟩
  unfold ofSymbol? at h
  split_ifs at h with hl hr hop hminus
  · subst hl; decide
  · subst hr; decide
  · rcases hop with rfl | rfl | rfl <;> decide
  · subst hminus; decide

/-- After a number the layout goes on with no character of a numeral. -/
theorem stops_layout {l : String} {after : List Char} {spaced : List (Token × List Char)}
    (hspaces : Spaces after spaced) (hsep : Separated ((num l, after) :: spaced))
    (h : CanonicalAfter (some (num l)) (spaced.map Prod.fst)) :
    Numeral.Stops (layout after spaced) := by
  rcases after with _ | ⟨c, after⟩
  · rcases spaced with _ | ⟨⟨t, blank⟩, spaced⟩
    · rintro d ⟨⟩
    · have ht : t.isNumber = false := by
        by_contra ht
        exact (List.isChain_cons_cons.mp hsep).1 rfl (by simpa using ht) rfl
      obtain ⟨c, hwritten, -, hc⟩ := exists_ofSymbol? h.1 ht
      rw [layout_cons, hwritten]
      exact stops_of_ofSymbol? _ hc
  · exact stops_of_isBlank _ (hspaces.first c (List.mem_cons_self ..))

/-- A literal is lexed whole if no character of a numeral follows. -/
theorem lexFrom_literal_append {n : Numeral} (hn : n.WellFormed)
    (hvalue : n.decimal.value < Binary64.overflow) {rest : List Char} (hr : Numeral.Stops rest)
    (position : ℕ) (previous : Option Token) :
    lexFrom position previous (n.text ++ rest) =
      (lexFrom (position + n.text.length) (some (num n.literal)) rest).map
        (num n.literal :: ·) := by
  obtain ⟨c, cs, htext, hstart⟩ := startsLiteral_of_wellFormed hn
  have hscan : Numeral.scan (c :: (cs ++ rest)) = (n, rest) := by
    rw [← List.cons_append, ← htext]
    exact Numeral.scan_text_append hn hr
  have hfinite : n.isFinite = true := Numeral.isFinite_iff.mpr ⟨hn.isComplete, hvalue⟩
  conv_lhs => rw [htext, List.cons_append]
  rw [lexFrom_literal (isBlank_of_startsLiteral hstart) (ofSymbol?_of_startsLiteral hstart _) hstart,
    hscan, if_pos hfinite]

/-- **Completeness**: a list that is canonical after a token is read back from
    any layout that keeps its numbers apart. -/
theorem lexFrom_layout {previous : Option Token} {blank : List Char}
    {spaced : List (Token × List Char)} (hspaces : Spaces blank spaced)
    (hsep : Separated spaced) (h : CanonicalAfter previous (spaced.map Prod.fst))
    (position : ℕ) :
    lexFrom position previous (layout blank spaced) = .ok (spaced.map Prod.fst) := by
  induction spaced generalizing previous blank position with
  | nil =>
    rw [layout_nil, ← List.append_nil blank, lexFrom_blanks hspaces.first]
    exact lexFrom_nil
  | cons p spaced ih =>
    obtain ⟨t, after⟩ := p
    obtain ⟨hfirst, hrest⟩ := h
    have htail := fun position => ih hspaces.tail hsep.tail hrest position
    rw [layout_cons, lexFrom_blanks hspaces.first]
    by_cases ht : t.isNumber = true
    · obtain ⟨l, rfl⟩ : ∃ l, t = num l := by cases t <;> simp_all [isNumber]
      obtain ⟨n, hn, hvalue, rfl⟩ := hfirst
      rw [show (num n.literal).written = n.text from String.toList_ofList,
        lexFrom_literal_append hn hvalue (stops_layout hspaces.tail hsep hrest), htail]
      rfl
    · obtain ⟨c, hwritten, hblank, hc⟩ := exists_ofSymbol? hfirst (by simpa using ht)
      rw [hwritten, List.singleton_append, lexFrom_symbol hblank hc, htail]
      rfl

/-- **The lexer accepts exactly its lexical language**: what it produces is
    canonical and spelled by the text, and every canonical list is read back
    from every text that spells it with its numbers apart. -/
theorem tokenize_exact :
    (∀ s tokens, tokenize s = .ok tokens →
      Canonical tokens ∧
        ∃ blank spaced, Spaces blank spaced ∧ spaced.map Prod.fst = tokens ∧
          s.toList = layout blank spaced) ∧
    (∀ blank spaced, Canonical (spaced.map Prod.fst) → Spaces blank spaced →
      Separated spaced →
        tokenize (String.ofList (layout blank spaced)) = .ok (spaced.map Prod.fst)) := by
  refine ⟨fun s tokens h => ?_, fun blank spaced h hspaces hsep => ?_⟩
  · obtain ⟨hcanonical, hlayout⟩ := CanonicalAfter.lexed h
    exact ⟨canonical_iff.mpr hcanonical, hlayout⟩
  · rw [tokenize, String.toList_ofList]
    exact lexFrom_layout hspaces hsep (canonical_iff.mp h) 0

/-- The tokens of `- .5e1 2.`, spelled again without the space after the minus. -/
theorem tokenize_exact_adjacent_numbers :
    Canonical [neg, num ".5e1", num "2."] ∧
      tokenize (String.ofList (layout [] [(neg, []), (num ".5e1", [' ']), (num "2.", [])])) =
        .ok [neg, num ".5e1", num "2."] := by
  have hcanonical : Canonical [neg, num ".5e1", num "2."] :=
    (tokenize_exact.1 "- .5e1 2." _ (by decide +kernel)).1
  refine ⟨hcanonical, tokenize_exact.2 _ _ hcanonical ⟨?_, ?_⟩ ?_⟩
  · simp
  · simp [Text.isBlank]
  · simp [Separated, isNumber]

end Token

end PostfixCalc
