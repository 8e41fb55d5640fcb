import PostfixCalc.Proofs.Composition

/-!
# Where a text goes wrong

The position in an error of the lexer is where the token begins that cannot be
read. So the text before it has tokens, and of what follows the offending
character, or the offending literal, nothing matters. The scanner looks ahead,
but never further than the next character: if a text is cut and goes on with the
same character, or ends, then all that was scanned before is scanned again.

Results:
* `Numeral.scan_text_append_of_startsLike`: a numeral is scanned again if the
  text after it starts as it did, or is gone.
* `exists_front_of_lexFrom_error`: a text with an error is a front that the
  lexer reads, and a rest that offends at once.
* `tokenize_error_located`: so errors are located exactly.
-/

namespace PostfixCalc

/-! ## Scanning a numeral again -/

namespace Numeral

/-- The text is empty, or starts with the first character of `rest`. -/
def StartsLike (text rest : List Char) : Prop := ∀ c ∈ text.head?, c ∈ rest.head?

theorem startsLike_nil (rest : List Char) : StartsLike [] rest := by
  rintro c ⟨⟩

theorem startsLike_cons (c : Char) (cs cs' : List Char) : StartsLike (c :: cs) (c :: cs') :=
  fun _ h => h

theorem StartsLike.eq_nil {text : List Char} (h : StartsLike text []) : text = [] := by
  cases text with
  | nil => rfl
  | cons c text => cases h c rfl

theorem StartsLike.eq_nil_or_cons {text cs : List Char} {c : Char} (h : StartsLike text (c :: cs)) :
    text = [] ∨ ∃ tail, text = c :: tail := by
  cases text with
  | nil => exact .inl rfl
  | cons d tail => exact .inr ⟨tail, by rw [Option.some.inj (h d rfl)]⟩

/-- A common front is a common start. -/
theorem StartsLike.append {text rest : List Char} (h : StartsLike text rest) (front : List Char) :
    StartsLike (front ++ text) (front ++ rest) := by
  cases front with
  | nil => exact h
  | cons c front => exact startsLike_cons c _ _

variable {text : List Char}

/-- The digits at the start of a text end where they did. -/
theorem takeWhile_isDigit_append_of_startsLike {cs : List Char}
    (h : StartsLike text (cs.dropWhile Char.isDigit)) :
    (cs.takeWhile Char.isDigit ++ text).takeWhile Char.isDigit = cs.takeWhile Char.isDigit ∧
      (cs.takeWhile Char.isDigit ++ text).dropWhile Char.isDigit = text :=
  takeWhile_isDigit_append isDigit_of_mem_takeWhile
    fun c hc => Text.eq_false_of_mem_head?_dropWhile (h c hc)

theorem scanFraction_text_append_of_startsLike {cs : List Char}
    (h : StartsLike text (scanFraction cs).2) :
    scanFraction ((scanFraction cs).1.elim [] ('.' :: ·) ++ text) = ((scanFraction cs).1, text) := by
  rcases cs with _ | ⟨c, cs⟩
  · obtain rfl := h.eq_nil
    rfl
  · rw [scanFraction] at h ⊢
    split_ifs at h ⊢ with hc
    · obtain ⟨htake, hdrop⟩ := takeWhile_isDigit_append_of_startsLike h
      simp [scanFraction, htake, hdrop]
    · obtain rfl | ⟨tail, rfl⟩ := h.eq_nil_or_cons
      · rfl
      · simp [scanFraction, hc]

theorem scanSign_text_append_of_startsLike {cs : List Char} (h : StartsLike text (scanSign cs).2) :
    scanSign ((scanSign cs).1.toList ++ text) = ((scanSign cs).1, text) := by
  rcases cs with _ | ⟨c, cs⟩
  · obtain rfl := h.eq_nil
    rfl
  · rw [scanSign] at h ⊢
    split_ifs at h ⊢ with hc
    · simp [scanSign, hc]
    · obtain rfl | ⟨tail, rfl⟩ := h.eq_nil_or_cons
      · rfl
      · simp [scanSign, hc]

theorem scanExponent_text_append_of_startsLike {cs : List Char}
    (h : StartsLike text (scanExponent cs).2) :
    scanExponent ((scanExponent cs).1.elim [] Exponent.text ++ text) =
      ((scanExponent cs).1, text) := by
  rcases cs with _ | ⟨c, cs⟩
  · obtain rfl := h.eq_nil
    rfl
  · rw [scanExponent] at h ⊢
    split_ifs at h ⊢ with hc
    · obtain ⟨htake, hdrop⟩ := takeWhile_isDigit_append_of_startsLike h
      -- behind the sign the text starts as it did, with a digit or without one
      have hsign := h.append ((scanSign cs).2.takeWhile Char.isDigit)
      simp only [List.takeWhile_append_dropWhile] at hsign
      simp [scanExponent, Exponent.text, hc, scanSign_text_append_of_startsLike hsign, htake, hdrop]
    · obtain rfl | ⟨tail, rfl⟩ := h.eq_nil_or_cons
      · rfl
      · simp [scanExponent, hc]

/-- What was scanned is scanned again, if the text after it starts as it did or
    is gone. -/
theorem scan_text_append_of_startsLike {cs : List Char} (h : StartsLike text (scan cs).2) :
    scan ((scan cs).1.text ++ text) = ((scan cs).1, text) := by
  have hexponent := scanExponent_text_append_of_startsLike h
  have hfraction := h.append ((scanExponent (scanFraction (cs.dropWhile Char.isDigit)).2).1.elim []
    Exponent.text)
  rw [show (scan cs).2 = (scanExponent (scanFraction (cs.dropWhile Char.isDigit)).2).2 from rfl,
    scanExponent_append] at hfraction
  have hwhole := hfraction.append ((scanFraction (cs.dropWhile Char.isDigit)).1.elim [] ('.' :: ·))
  rw [scanFraction_append] at hwhole
  obtain ⟨htake, hdrop⟩ := takeWhile_isDigit_append_of_startsLike hwhole
  simp only [scan, Numeral.text, List.append_assoc]
  simp only [htake, hdrop, scanFraction_text_append_of_startsLike hfraction, hexponent]

/-- A numeral alone is scanned whole. -/
theorem scan_text_scan (cs : List Char) : scan (scan cs).1.text = ((scan cs).1, []) := by
  simpa using scan_text_append_of_startsLike (startsLike_nil (scan cs).2)

end Numeral

open Numeral (StartsLike)
open Token

/-! ## The front that is read -/

/-- The lexer stops at the start of the text: its first character starts no
    token, or it starts with a numeral that is no finite number. -/
inductive Offends (previous : Option Token) (position : ℕ) : List Char → LexError → Prop
  | char {c : Char} {cs : List Char} : Text.isBlank c = false → ofSymbol? previous c = none →
      startsLiteral c = false → Offends previous position (c :: cs) (.unexpectedChar c position)
  | literal {c : Char} {cs : List Char} : startsLiteral c = true →
      (Numeral.scan (c :: cs)).1.isFinite = false →
      Offends previous position (c :: cs)
        (.invalidNumber (Numeral.scan (c :: cs)).1.literal position)

theorem lexFrom_of_offends {previous : Option Token} {position : ℕ} {cs : List Char} {e : LexError}
    (h : Offends previous position cs e) : lexFrom position previous cs = .error e := by
  cases h with
  | char hblank hsymbol hstart => exact lexFrom_other hblank hsymbol hstart
  | literal hstart hfinite =>
    rw [lexFrom_literal (isBlank_of_startsLiteral hstart) (ofSymbol?_of_startsLiteral hstart _)
      hstart, if_neg (by simp [hfinite])]

theorem lexThen_nil (position : ℕ) (previous : Option Token) (rest : List Char) :
    lexThen position previous rest [] = lexFrom position previous rest := by
  show (lexFrom position previous rest).map ([] ++ ·) = _
  cases lexFrom position previous rest <;> rfl

/-- A numeral starts with the first character of its text. -/
theorem exists_text_scan_cons {c : Char} (h : startsLiteral c = true) (cs : List Char) :
    ∃ tail, (Numeral.scan (c :: cs)).1.text = c :: tail := by
  have hne : (Numeral.scan (c :: cs)).1.text ≠ [] :=
    Numeral.text_scan_ne_nil (by simpa [startsLiteral] using h)
  obtain ⟨d, tail, htail⟩ := List.exists_cons_of_ne_nil hne
  have happend := Numeral.text_scan_append (c :: cs)
  rw [htail] at happend
  obtain ⟨rfl, -⟩ := List.cons.inj happend
  exact ⟨tail, htail⟩

/-- A text with an error is a front and a rest that offends. The front is read
    to the same tokens in any text that starts like the rest behind it. -/
theorem exists_front_of_lexFrom_error {position : ℕ} {previous : Option Token} {cs : List Char}
    {e : LexError} (h : lexFrom position previous cs = .error e) :
    ∃ front rest tokens, front ++ rest = cs ∧
      Offends (tokens.getLast?.or previous) (position + front.length) rest e ∧
      ∀ text, StartsLike text rest → lexFrom position previous (front ++ text) =
        lexThen (position + front.length) previous text tokens := by
  fun_induction lexFrom position previous cs with
  | case1 => cases h
  | case2 position previous c cs hc ih =>
    obtain ⟨front, rest, tokens, rfl, hoffends, hfront⟩ := ih h
    rw [Nat.add_right_comm] at hoffends hfront
    refine ⟨c :: front, rest, tokens, rfl, hoffends, fun text htext => ?_⟩
    rw [List.cons_append, lexFrom_blank hc]
    exact hfront text htext
  | case3 position previous c cs hc t ht ih =>
    obtain ⟨front, rest, tokens, rfl, hoffends, hfront⟩ := ih (map_eq_error_iff.mp h)
    rw [Nat.add_right_comm] at hoffends hfront
    rw [← getLast?_cons_or] at hoffends
    refine ⟨c :: front, rest, t :: tokens, rfl, hoffends, fun text htext => ?_⟩
    rw [List.cons_append, lexFrom_symbol (by simpa using hc) ht, hfront text htext]
    exact map_cons_lexThen (x := .ok tokens) previous t
  | case4 position previous c cs hc ht hstart n hfinite =>
    rename_i ih
    obtain ⟨front, rest, tokens, hrest, hoffends, hfront⟩ := ih (map_eq_error_iff.mp h)
    have hcs : n.text ++ (front ++ rest) = c :: cs := by
      rw [hrest]
      exact Numeral.text_scan_append (c :: cs)
    obtain ⟨tail, htail⟩ : ∃ tail, n.text = c :: tail := exists_text_scan_cons hstart cs
    rw [Nat.add_assoc, ← List.length_append] at hoffends hfront
    rw [← getLast?_cons_or] at hoffends
    refine ⟨n.text ++ front, rest, num n.literal :: tokens, by rw [List.append_assoc, hcs],
      hoffends, fun text hstarts => ?_⟩
    have hscan : Numeral.scan (n.text ++ (front ++ text)) = (n, front ++ text) :=
      Numeral.scan_text_append_of_startsLike (hrest ▸ hstarts.append front)
    have htext : n.text ++ (front ++ text) = c :: (tail ++ (front ++ text)) := by rw [htail]; rfl
    rw [List.append_assoc, htext, lexFrom_literal (by simpa using hc) ht hstart, ← htext, hscan,
      if_pos hfinite, hfront text hstarts]
    exact map_cons_lexThen (x := .ok tokens) previous (num n.literal)
  | case5 position previous c cs hc ht hstart n hfinite =>
    obtain rfl := Except.error.inj h
    exact ⟨[], c :: cs, [], rfl, .literal hstart (by simpa using hfinite),
      fun text _ => (lexThen_nil position previous text).symm⟩
  | case6 position previous c cs hc ht hstart =>
    obtain rfl := Except.error.inj h
    exact ⟨[], c :: cs, [], rfl, .char (by simpa using hc) ht (by simpa using hstart),
      fun text _ => (lexThen_nil position previous text).symm⟩

/-- The front has tokens, and with any text behind it that starts like the rest
    and offends, it has the error of that text. -/
theorem exists_front_of_tokenize_error {s : String} {e : LexError} (h : tokenize s = .error e) :
    ∃ front rest previous, front ++ rest = s.toList ∧ Offends previous front.length rest e ∧
      (∃ tokens, tokenize (String.ofList front) = .ok tokens) ∧
      ∀ text e', StartsLike text rest → Offends previous front.length text e' →
        tokenize (String.ofList (front ++ text)) = .error e' := by
  obtain ⟨front, rest, tokens, hs, hoffends, hfront⟩ := exists_front_of_lexFrom_error h
  rw [Nat.zero_add] at hoffends hfront
  refine ⟨front, rest, tokens.getLast?.or none, hs, hoffends, ⟨tokens, ?_⟩, ?_⟩
  · have hnil := hfront [] (Numeral.startsLike_nil rest)
    rw [List.append_nil, lexThen, lexFrom_nil] at hnil
    rw [tokenize, String.toList_ofList, hnil]
    show Except.ok (tokens ++ []) = _
    rw [List.append_nil]
  · intro text e' hstarts hoffends'
    rw [tokenize, String.toList_ofList, hfront text hstarts, lexThen, lexFrom_of_offends hoffends']
    rfl

/-! ## The place of an error -/

/-- The character in an error is the first one, and offends whatever follows it. -/
theorem Offends.of_unexpectedChar {previous : Option Token} {position p : ℕ} {rest : List Char}
    {c : Char} (h : Offends previous position rest (.unexpectedChar c p)) :
    p = position ∧ (∃ cs, rest = c :: cs) ∧
      ∀ cs, Offends previous position (c :: cs) (.unexpectedChar c p) := by
  cases h with
  | @char _ cs hblank hsymbol hstart =>
    exact ⟨rfl, ⟨cs, rfl⟩, fun cs => .char hblank hsymbol hstart⟩

/-- The literal in an error comes first, does not read as a finite number, and
    offends alone. -/
theorem Offends.of_invalidNumber {previous : Option Token} {position p : ℕ} {rest : List Char}
    {l : String} (h : Offends previous position rest (.invalidNumber l p)) :
    p = position ∧ (∃ after, rest = l.toList ++ after) ∧ StartsLike l.toList rest ∧
      (∀ x, Scalar.read? l = some x → x.isFinite = false) ∧
      Offends previous position l.toList (.invalidNumber l p) := by
  cases h with
  | @literal c cs hstart hfinite =>
    obtain ⟨tail, htail⟩ := exists_text_scan_cons hstart cs
    have hscan := Numeral.scan_text_scan (c :: cs)
    rw [htail] at hscan
    rw [Numeral.literal, String.toList_ofList, htail]
    refine ⟨rfl, ⟨_, htail ▸ (Numeral.text_scan_append (c :: cs)).symm⟩,
      Numeral.startsLike_cons c tail cs, fun x hx => ?_, ?_⟩
    · rw [Scalar.read?, String.toList_ofList, Scalar.readChars?_of_startsLiteral hstart,
        Scalar.readMagnitude?_of_startsLiteral hstart, hscan] at hx
      rw [Numeral.isFinite, show (Numeral.scan (c :: cs)).1.toFloat? = some x from hx] at hfinite
      exact hfinite
    · have hliteral : Offends previous position (c :: tail)
          (.invalidNumber (Numeral.scan (c :: tail)).1.literal position) :=
        .literal hstart (by rw [hscan]; exact hfinite)
      rwa [hscan, Numeral.literal, htail] at hliteral

/-- **Errors of the lexer are located exactly.** A character that starts no
    token stands at the position given, the text before it has tokens, and the
    error is the same whatever follows the character. A literal that is no
    finite number stands in the text from the position on, the text before it
    has tokens, and the error is the same if the text ends with the literal. -/
theorem tokenize_error_located (s : String) :
    (∀ c p, tokenize s = .error (.unexpectedChar c p) →
      s.toList[p]? = some c ∧
      (∃ tokens, tokenize (String.ofList (s.toList.take p)) = .ok tokens) ∧
      ∀ t : String, tokenize (String.ofList (s.toList.take (p + 1)) ++ t) =
        .error (.unexpectedChar c p)) ∧
    (∀ l p, tokenize s = .error (.invalidNumber l p) →
      (s.toList.drop p).take l.length = l.toList ∧
      (∀ x, Scalar.read? l = some x → x.isFinite = false) ∧
      (∃ tokens, tokenize (String.ofList (s.toList.take p)) = .ok tokens) ∧
      tokenize (String.ofList (s.toList.take (p + l.length))) = .error (.invalidNumber l p)) := by
  constructor
  · intro c p h
    obtain ⟨front, rest, previous, hs, hoffends, hbefore, herror⟩ :=
      exists_front_of_tokenize_error h
    obtain ⟨rfl, ⟨cs, rfl⟩, hchar⟩ := hoffends.of_unexpectedChar
    rw [← hs]
    refine ⟨by simp, by rwa [List.take_left], fun t => ?_⟩
    have hcut : String.ofList ((front ++ c :: cs).take (front.length + 1)) ++ t =
        String.ofList (front ++ c :: t.toList) := by
      refine String.toList_inj.mp ?_
      rw [List.take_length_add_append]
      simp
    rw [hcut]
    exact herror _ _ (Numeral.startsLike_cons c _ cs) (hchar t.toList)
  · intro l p h
    obtain ⟨front, rest, previous, hs, hoffends, hbefore, herror⟩ :=
      exists_front_of_tokenize_error h
    obtain ⟨rfl, ⟨after, hrest⟩, hstarts, hread, hliteral⟩ := hoffends.of_invalidNumber
    rw [← hs]
    have hlength : l.length = l.toList.length := String.length_toList.symm
    refine ⟨?_, hread, by rwa [List.take_left], ?_⟩
    · rw [List.drop_left, hrest, hlength, List.take_left]
    · have hcut : (front ++ rest).take (front.length + l.length) = front ++ l.toList := by
        rw [List.take_length_add_append, hrest, hlength, List.take_left]
      rw [hcut]
      exact herror _ _ hstarts hliteral

/-- An `e` right behind a literal with an exponent, and a lone point right behind
    a literal, after white space that is not ASCII. -/
theorem tokenize_error_located_samples :
    (tokenize "1e5e+2" = .error (.unexpectedChar 'e' 3) ∧ "1e5e+2".toList[3]? = some 'e' ∧
      ∀ t : String, tokenize (String.ofList ("1e5e+2".toList.take 4) ++ t) =
        .error (.unexpectedChar 'e' 3)) ∧
    (tokenize "\u00a0- 1.5.+2" = .error (.invalidNumber "." 6) ∧
      (∀ x, Scalar.read? "." = some x → x.isFinite = false) ∧
      ∃ tokens, tokenize (String.ofList ("\u00a0- 1.5.+2".toList.take 6)) = .ok tokens) := by
  have hchar : tokenize "1e5e+2" = .error (.unexpectedChar 'e' 3) := by decide +kernel
  have hliteral : tokenize "\u00a0- 1.5.+2" = .error (.invalidNumber "." 6) := by decide +kernel
  obtain ⟨hplace, -, hsame⟩ := (tokenize_error_located "1e5e+2").1 'e' 3 hchar
  obtain ⟨-, hread, hbefore, -⟩ := (tokenize_error_located "\u00a0- 1.5.+2").2 "." 6 hliteral
  exact ⟨⟨hchar, hplace, hsame⟩, hliteral, hread, hbefore⟩

end PostfixCalc
