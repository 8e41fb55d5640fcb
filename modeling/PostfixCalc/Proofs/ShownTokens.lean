import PostfixCalc.Proofs.Refusal

/-!
# The steps shown are read back

The steps of a computation are shown as two lists of tokens, with one space
between two of them. On arbitrary tokens such a text is ambiguous: a number may
hold a space, or spell an operator. But the lexer takes only literals for
numbers, which start with a digit or a point and hold no white space, and the
conversion to postfix order makes no new ones. So the texts are read back token
by token, and no two lists that are shown have the same one.

Results:
* `Token.ofText_text`, `Token.readList_listText`: a token, and a list of them,
  are read back from their text.
* `Token.eq_of_listText_eq`: no two lists have the same text.
* `Expression.explain_legible`: so the steps shown are the steps of the value.
-/

namespace PostfixCalc

namespace Token

/-! ## Reading tokens -/

/-- The token that is shown as a text: what is no operator and no parenthesis is
    a number. -/
def ofText : String → Token
  | "u-" => neg
  | "(" => lpar
  | ")" => rpar
  | "+" => op '+'
  | "-" => op '-'
  | "*" => op '*'
  | "/" => op '/'
  | literal => num literal

/-- The tokens of a text, with a single space between any two. -/
def readList (s : String) : List Token :=
  (s.toList.splitOn ' ').map fun w => ofText (String.ofList w)

/-- The tokens of the lexical language: literals, the four operators, the unary
    minus and parentheses. -/
def Legible : Token → Prop
  | num l => IsLiteral l
  | op x => x ∈ ['+', '-', '*', '/']
  | neg | lpar | rpar => True

theorem exists_cons_of_isLiteral {l : String} (h : IsLiteral l) :
    ∃ c cs, l.toList = c :: cs ∧ startsLiteral c = true := by
  obtain ⟨n, hn, -, rfl⟩ := h
  rw [Numeral.literal, String.toList_ofList]
  exact startsLiteral_of_wellFormed hn

theorem not_isLiteral_empty : ¬ IsLiteral "" := by
  intro h
  obtain ⟨c, cs, hl, -⟩ := exists_cons_of_isLiteral h
  cases hl

/-- A literal is taken for no operator and no parenthesis. -/
theorem ofText_of_isLiteral {l : String} (h : IsLiteral l) : ofText l = num l := by
  have hne : ∀ w : String, w.toList.head?.any startsLiteral = false → l ≠ w := by
    rintro w hw rfl
    obtain ⟨c, cs, hl, hstart⟩ := exists_cons_of_isLiteral h
    rw [hl, List.head?_cons, Option.any_some, hstart] at hw
    cases hw
  unfold ofText
  split
  case h_8 => rfl
  all_goals exact absurd rfl (hne _ (by decide))

/-- A token is read back from its text. -/
theorem ofText_text {t : Token} (h : t.Legible) : ofText t.text = t := by
  cases t with
  | num l => exact ofText_of_isLiteral h
  | op x =>
    simp only [Legible, List.mem_cons, List.not_mem_nil, or_false] at h
    rcases h with rfl | rfl | rfl | rfl <;> decide
  | neg => decide
  | lpar => decide
  | rpar => decide

/-- No token is cut at a space. -/
theorem space_notMem_text {t : Token} (h : t.Legible) : ' ' ∉ t.text.toList := by
  cases t with
  | num l =>
    obtain ⟨n, hn, -, rfl⟩ := h
    intro hmem
    rw [text, Numeral.literal, String.toList_ofList] at hmem
    exact absurd (isBlank_of_mem_text hn ' ' hmem) (by decide)
  | op x =>
    simp only [Legible, List.mem_cons, List.not_mem_nil, or_false] at h
    rcases h with rfl | rfl | rfl | rfl <;> decide
  | neg => decide
  | lpar => decide
  | rpar => decide

/-! ## Reading lists of tokens -/

variable {tokens : List Token}

theorem toList_listText (tokens : List Token) :
    (listText tokens).toList = [' '].intercalate (tokens.map fun t => t.text.toList) := by
  rw [listText, String.toList_intercalate, List.map_map]
  rfl

/-- A list that is not empty is read back from its text. -/
theorem readList_listText (hne : tokens ≠ []) (h : ∀ t ∈ tokens, t.Legible) :
    readList (listText tokens) = tokens := by
  have hspace : ∀ w ∈ tokens.map (fun t => t.text.toList), ' ' ∉ w := by
    intro w hw
    obtain ⟨t, ht, rfl⟩ := List.mem_map.mp hw
    exact space_notMem_text (h t ht)
  rw [readList, toList_listText, List.splitOn_intercalate ' ' hspace (by simpa using hne),
    List.map_map]
  refine (List.map_congr_left fun t ht => ?_).trans (List.map_id tokens)
  rw [Function.comp_apply, String.ofList_toList]
  exact ofText_text (h t ht)

/-- Only the empty list has an empty text. -/
theorem eq_nil_of_listText_eq (h : ∀ t ∈ tokens, t.Legible) (htext : listText tokens = "") :
    tokens = [] := by
  by_contra hne
  have hread := readList_listText hne h
  rw [htext] at hread
  have hempty : num "" ∈ tokens := by
    rw [← hread]
    decide
  exact not_isLiteral_empty (h _ hempty)

/-- No two lists have the same text. -/
theorem eq_of_listText_eq {a b : List Token} (ha : ∀ t ∈ a, t.Legible) (hb : ∀ t ∈ b, t.Legible)
    (h : listText a = listText b) : a = b := by
  rcases eq_or_ne a [] with rfl | hne
  · exact (eq_nil_of_listText_eq hb h.symm).symm
  rcases eq_or_ne b [] with rfl | hne'
  · exact eq_nil_of_listText_eq ha h
  rw [← readList_listText hne ha, h, readList_listText hne' hb]

/-! ## The tokens that are shown -/

theorem legible_of_tokenize {s : String} (h : tokenize s = .ok tokens) :
    ∀ t ∈ tokens, t.Legible := by
  obtain ⟨hliteral, hsymbol, -⟩ := canonicalAfter_iff.mp (CanonicalAfter.lexed h).1
  intro t ht
  cases t with
  | num l => exact hliteral l ht
  | op x => simpa [Legible] using hsymbol x ht
  | neg | lpar | rpar => trivial

theorem legible_of_ofInfix {program : List Token} (h : Postfix.ofInfix tokens = .ok program)
    (htokens : ∀ t ∈ tokens, t.Legible) : ∀ t ∈ program, t.Legible :=
  fun t ht => htokens t (Postfix.of_mem_ofInfix h t ht).1

end Token

namespace Expression

open Token (listText readList)

/-- The tokens of some text, as typed or in postfix order. -/
def Shown (tokens : List Token) : Prop :=
  ∃ s typed, tokenize s = .ok typed ∧ (tokens = typed ∨ Postfix.ofInfix typed = .ok tokens)

theorem Shown.legible {tokens : List Token} (h : Shown tokens) : ∀ t ∈ tokens, t.Legible := by
  obtain ⟨s, typed, hlex, rfl | hparen⟩ := h
  · exact Token.legible_of_tokenize hlex
  · exact Token.legible_of_ofInfix hparen (Token.legible_of_tokenize hlex)

/-- A value is explained by the tokens of the text and the program that has the value. -/
theorem exists_compile_of_explain {r : Registry} {s : String} {v : Float} {working : Working}
    (h : explain r s = .ok (v, working)) :
    ∃ tokens program, compile s = .ok (tokens, program) ∧ Machine.evaluate r program = .ok v ∧
      working = ⟨listText tokens, listText program, note⟩ := by
  obtain ⟨⟨tokens, program⟩, hcompile, h⟩ := bind_eq_ok_iff.mp h
  obtain ⟨value, hvalue, h⟩ := bind_eq_ok_iff.mp h
  obtain ⟨rfl, rfl⟩ := Prod.mk.inj (Except.ok.inj h)
  exact ⟨tokens, program, hcompile, hvalue, rfl⟩

/-- **The steps shown are those of the value, and are not ambiguous.** What is
    explained is the value of the text, or its error. The tokens that are shown
    read back as those of the text, and the program that is shown reads back as
    their postfix order, which has the value. No two lists that are shown, of
    whatever texts, have the same text. -/
theorem explain_legible (r : Registry) (s : String) :
    (explain r s).map Prod.fst = evaluateWith r s ∧
    (∀ v working, explain r s = .ok (v, working) →
      tokenize s = .ok (readList working.tokens) ∧
      Postfix.ofInfix (readList working.tokens) = .ok (readList working.program) ∧
      Machine.evaluate r (readList working.program) = .ok v) ∧
    ∀ a b, Shown a → Shown b → listText a = listText b → a = b := by
  refine ⟨explain_value r s, fun v working h => ?_, fun a b ha hb => ?_⟩
  · obtain ⟨tokens, program, hcompile, hvalue, rfl⟩ := exists_compile_of_explain h
    obtain ⟨hlex, hparen⟩ := compile_eq_ok_iff.mp hcompile
    have htokens := Token.legible_of_tokenize hlex
    -- an empty program leaves no value
    have hprogram : program ≠ [] := by
      rintro rfl
      cases hvalue
    have hne : tokens ≠ [] := by
      rintro rfl
      exact hprogram (Except.ok.inj hparen).symm
    rw [Token.readList_listText hne htokens,
      Token.readList_listText hprogram (Token.legible_of_ofInfix hparen htokens)]
    exact ⟨hlex, hparen, hvalue⟩
  · exact Token.eq_of_listText_eq ha.legible hb.legible

/-- A product with a negated sum; and `1 2 -` as typed, which is also shown as
    the postfix order of `1-2`. -/
theorem explain_legible_samples :
    (let working : Working := ⟨"u- ( 1.5 + 2e1 ) * 2", "1.5 2e1 + u- 2 *", note⟩;
      explain .standard "-(1.5+2e1)*2" = .ok (-43, working) ∧
        tokenize "-(1.5+2e1)*2" = .ok (readList working.tokens) ∧
        Machine.evaluate .standard (readList working.program) = .ok (-43)) ∧
    (let typed : List Token := [.num "1", .num "2", .op '-'];
      let converted : List Token := [.num "1", .num "2", .op '-'];
      Shown typed ∧ Postfix.ofInfix [.num "1", .op '-', .num "2"] = .ok converted ∧
        listText typed = listText converted ∧ typed = converted) := by
  have hexplain : explain .standard "-(1.5+2e1)*2" =
      .ok (-43, ⟨"u- ( 1.5 + 2e1 ) * 2", "1.5 2e1 + u- 2 *", note⟩) := by decide +kernel
  have htyped : tokenize "1 2 -" = .ok [.num "1", .num "2", .op '-'] := by decide +kernel
  have hinfix : tokenize "1-2" = .ok [.num "1", .op '-', .num "2"] := by decide +kernel
  have hconverted : Postfix.ofInfix [.num "1", .op '-', .num "2"] =
      .ok [.num "1", .num "2", .op '-'] := by decide
  have hshown : Shown [.num "1", .num "2", .op '-'] := ⟨_, _, htyped, .inl rfl⟩
  obtain ⟨-, hsteps, hunique⟩ := explain_legible .standard "-(1.5+2e1)*2"
  obtain ⟨hlex, -, hvalue⟩ := hsteps _ _ hexplain
  exact ⟨⟨hexplain, hlex, hvalue⟩, hshown, hconverted, rfl,
    hunique _ _ hshown ⟨_, _, hinfix, .inr hconverted⟩ rfl⟩

end Expression

end PostfixCalc
