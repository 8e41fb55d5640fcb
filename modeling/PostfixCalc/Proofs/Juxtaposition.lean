import PostfixCalc.Proofs.Composition

/-!
# Texts side by side

No numeral reaches across white space, so two texts with white space between
them have the tokens of the one and then those of the other. The second text
takes over from the first whether an operand is awaited, and this decides about
a minus only. A minus that comes first in the second text subtracts if the first
one ends with an operand. All later tokens have the one before them in their own
text, and a minus awaits an operand whether it subtracts or negates.

Results:
* `lexFrom_congr`: the lexer asks the token before only whether it awaits an
  operand.
* `lexFrom_behind`: the tokens of a text behind others.
* `tokenize_append_blank_append`: the tokens of two texts side by side.
* `tokenize_side_by_side`: so tokenizing is compositional at white space.
-/

namespace PostfixCalc

open Token

/-! ## What the token before decides -/

namespace Token

/-- The token that stands for `t`, the first one of a text, behind `previous`:
    a minus subtracts if `previous` is a number or a closing parenthesis. -/
def behind (previous : Option Token) (t : Token) : Token :=
  if t = neg ∧ previous.any (fun p => p.isNumber || p == rpar) then op '-' else t

theorem behind_of_ne {t : Token} (h : t ≠ neg) (previous : Option Token) : behind previous t = t :=
  if_neg fun hneg => h hneg.1

theorem behind_neg (previous : Option Token) : behind previous neg = ofMinus previous := by
  rcases previous with _ | p
  · rfl
  · cases p <;> rfl

theorem awaitsOperand_behind (previous : Option Token) (t : Token) :
    (behind previous t).awaitsOperand = t.awaitsOperand := by
  unfold behind
  split_ifs with h
  · rw [h.1]
    rfl
  · rfl

/-- A character is a token behind any other if it is one at the start of a text. -/
theorem ofSymbol?_behind (previous : Option Token) (c : Char) :
    ofSymbol? previous c = (ofSymbol? none c).map (behind previous) := by
  unfold ofSymbol?
  split_ifs
  · rfl
  · rfl
  · rfl
  · exact congrArg some (behind_neg previous).symm
  · rfl

end Token

/-- The lexer asks the token before only whether it awaits an operand. -/
theorem lexFrom_congr {previous previous' : Option Token}
    (h : previous.all awaitsOperand = previous'.all awaitsOperand) (position : ℕ) (cs : List Char) :
    lexFrom position previous cs = lexFrom position previous' cs := by
  have hsymbol : ∀ c, ofSymbol? previous c = ofSymbol? previous' c := by
    intro c
    unfold ofSymbol? ofMinus
    rw [h]
  induction cs generalizing position with
  | nil => rw [lexFrom_nil, lexFrom_nil]
  | cons c cs ih =>
    by_cases hblank : Text.isBlank c = true
    · rw [lexFrom_blank hblank, lexFrom_blank hblank, ih]
    · rw [Bool.not_eq_true] at hblank
      cases ht : ofSymbol? previous' c with
      | some t => rw [lexFrom_symbol hblank ht, lexFrom_symbol hblank ((hsymbol c).trans ht)]
      | none =>
        cases hstart : startsLiteral c with
        | true =>
          rw [lexFrom_literal hblank ht hstart,
            lexFrom_literal hblank ((hsymbol c).trans ht) hstart]
        | false =>
          rw [lexFrom_other hblank ht hstart, lexFrom_other hblank ((hsymbol c).trans ht) hstart]

theorem map_cons_map_modifyHead (x : Except LexError (List Token)) (f : Token → Token) (t : Token) :
    (x.map (t :: ·)).map (List.modifyHead f) = x.map (f t :: ·) := by
  cases x <;> rfl

/-- Behind other tokens a text has the same tokens, the first one apart. -/
theorem lexFrom_behind (position : ℕ) (previous : Option Token) (cs : List Char) :
    lexFrom position previous cs =
      (lexFrom position none cs).map (List.modifyHead (behind previous)) := by
  induction cs generalizing position with
  | nil =>
    rw [lexFrom_nil, lexFrom_nil]
    rfl
  | cons c cs ih =>
    by_cases hblank : Text.isBlank c = true
    · rw [lexFrom_blank hblank, lexFrom_blank hblank, ih]
    · rw [Bool.not_eq_true] at hblank
      cases ht : ofSymbol? none c with
      | some t =>
        have hsymbol : ofSymbol? previous c = some (behind previous t) := by
          rw [ofSymbol?_behind, ht, Option.map_some]
        have hrest : lexFrom (position + 1) (some (behind previous t)) cs =
            lexFrom (position + 1) (some t) cs :=
          lexFrom_congr (by exact awaitsOperand_behind previous t) (position + 1) cs
        rw [lexFrom_symbol hblank ht, lexFrom_symbol hblank hsymbol, map_cons_map_modifyHead, hrest]
      | none =>
        have hsymbol : ofSymbol? previous c = none := by
          rw [ofSymbol?_behind, ht, Option.map_none]
        cases hstart : startsLiteral c with
        | true =>
          rw [lexFrom_literal hblank ht hstart, lexFrom_literal hblank hsymbol hstart]
          split_ifs
          · rw [map_cons_map_modifyHead, behind_of_ne (by simp)]
          · rfl
        | false =>
          rw [lexFrom_other hblank ht hstart, lexFrom_other hblank hsymbol hstart]
          rfl

/-! ## Side by side -/

/-- The tokens of two texts side by side. The first error counts, the one of the
    second text from its place in the whole. -/
theorem tokenize_append_blank_append (s t : String) {w : String} (hne : w ≠ "")
    (hblank : ∀ c ∈ w.toList, Text.isBlank c = true) :
    tokenize (s ++ w ++ t) = tokenize s >>= fun xs =>
      ((tokenize t).mapError (LexError.later (s ++ w).length)).map fun ys =>
        xs ++ ys.modifyHead (behind xs.getLast?) := by
  have hapart : Numeral.Apart (w.toList ++ t.toList) := by
    obtain ⟨c, cs, hw⟩ := List.exists_cons_of_ne_nil (mt String.toList_eq_nil_iff.mp hne)
    rw [hw] at hblank ⊢
    exact Numeral.apart_of_isBlank _ (hblank c (List.mem_cons_self ..))
  have htext : (s ++ w ++ t).toList = s.toList ++ (w.toList ++ t.toList) := by simp
  have hlength : 0 + s.toList.length + w.toList.length = 0 + (s ++ w).length := by
    simp [String.length_toList]
  rw [tokenize, htext, lexFrom_append hapart]
  show tokenize s >>= _ = tokenize s >>= _
  congr 1
  funext xs
  rw [lexThen, Option.or_none, lexFrom_blanks hblank, lexFrom_behind, hlength, lexFrom_add_position]
  show (((tokenize t).mapError _).map _).map _ = _
  cases tokenize t <;> rfl

/-- **Tokenizing is compositional at white space.** An error of the first text
    is the error of the whole, and so is one of the second, at its place in the
    whole. The tokens are those of both texts, except that a minus at the start
    of the second one subtracts behind a number or a closing parenthesis. -/
theorem tokenize_side_by_side (s t : String) {w : String} (hne : w ≠ "")
    (hblank : ∀ c ∈ w.toList, Text.isBlank c = true) :
    (∀ e, tokenize s = .error e → tokenize (s ++ w ++ t) = .error e) ∧
    (∀ xs e, tokenize s = .ok xs → tokenize t = .error e →
      tokenize (s ++ w ++ t) = .error (e.later (s ++ w).length)) ∧
    (∀ xs ys, tokenize s = .ok xs → tokenize t = .ok ys →
      tokenize (s ++ w ++ t) = .ok (xs ++ ys.modifyHead (behind xs.getLast?))) := by
  have hboth := tokenize_append_blank_append s t hne hblank
  refine ⟨fun e hs => ?_, fun xs e hs ht => ?_, fun xs ys hs ht => ?_⟩
  · rw [hboth, hs]
    rfl
  · rw [hboth, hs, ht]
    rfl
  · rw [hboth, hs, ht]
    rfl

/-- An error on either side of a tab and an ideographic space, and a minus behind
    a parenthesis, behind an operator and after a first minus. -/
theorem tokenize_side_by_side_samples :
    (tokenize "1 $" = .error (.unexpectedChar '$' 2) ∧
      tokenize ("1 $" ++ "\t\u3000" ++ "2") = .error (.unexpectedChar '$' 2)) ∧
    (tokenize "é" = .error (.unexpectedChar 'é' 0) ∧
      tokenize ("1 2" ++ "\t\u3000" ++ "é") = .error (.unexpectedChar 'é' 5)) ∧
    (tokenize "--1" = .ok [neg, neg, num "1"] ∧
      tokenize ("()" ++ "\t\u3000" ++ "--1") = .ok [lpar, rpar, op '-', neg, num "1"] ∧
      tokenize ("2*" ++ "\t\u3000" ++ "--1") = .ok [num "2", op '*', neg, neg, num "1"]) := by
  have hne : "\t\u3000" ≠ "" := by decide
  have hblank : ∀ c ∈ "\t\u3000".toList, Text.isBlank c = true := by simp [Text.isBlank]
  have hfirst : tokenize "1 $" = .error (.unexpectedChar '$' 2) := by decide +kernel
  have hsecond : tokenize "é" = .error (.unexpectedChar 'é' 0) := by decide +kernel
  have hminus : tokenize "--1" = .ok [neg, neg, num "1"] := by decide +kernel
  refine ⟨⟨hfirst, ?_⟩, ⟨hsecond, ?_⟩, hminus, ?_, ?_⟩
  · exact (tokenize_side_by_side "1 $" "2" hne hblank).1 _ hfirst
  · exact (tokenize_side_by_side "1 2" "é" hne hblank).2.1 [num "1", num "2"] _
      (by decide +kernel) hsecond
  · exact (tokenize_side_by_side "()" "--1" hne hblank).2.2 [lpar, rpar] _ (by decide +kernel) hminus
  · exact (tokenize_side_by_side "2*" "--1" hne hblank).2.2 [num "2", op '*'] _
      (by decide +kernel) hminus

end PostfixCalc
