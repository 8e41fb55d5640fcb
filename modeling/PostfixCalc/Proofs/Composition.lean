import PostfixCalc.Proofs.Lexing

/-!
# Lexing texts that are put together

The lexer passes from one part of a text to the next one with nothing but the
position and the last token, provided that no numeral can reach across. Not even
an incomplete one may: the scanner takes `2e` for a number without the digits of
its exponent, and a sign that follows belongs to it. White space and parentheses
are characters of no numeral, so they keep any two parts apart.

The position has no part in what is found. It only says where it was.

Results:
* `Numeral.scan_append`: a character of no numeral ends the scan, whether the
  numeral is complete or not.
* `lexFrom_add_position`: the same tokens and errors are found further on.
* `lexFrom_append`: after the tokens of the first part the lexer goes on from the
  last one.
* `lexFrom_append_blank`: white space after a text changes nothing.
-/

namespace PostfixCalc

/-! ## Scanning a part of a text -/

/-- If the second part of a list does not start with a member of a class, the
    longest start in the class ends in the first part. -/
theorem takeWhile_append_of_head? {α : Type} {p : α → Bool} {rest : List α}
    (hr : ∀ a ∈ rest.head?, p a = false) (front : List α) :
    (front ++ rest).takeWhile p = front.takeWhile p ∧
      (front ++ rest).dropWhile p = front.dropWhile p ++ rest := by
  induction front with
  | nil =>
    rcases rest with _ | ⟨a, rest⟩
    · simp
    · simp [hr a rfl]
  | cons a front ih =>
    cases ha : p a with
    | true => simp [ha, ih]
    | false => simp [ha]

namespace Numeral

/-- The text `rest` does not go on with a character of any numeral. -/
def Apart (rest : List Char) : Prop :=
  ∀ c ∈ rest.head?, c.isDigit = false ∧ c ∉ ['.', 'e', 'E', '+', '-']

theorem apart_of_isBlank {c : Char} (cs : List Char) (h : Text.isBlank c = true) :
    Apart (c :: cs) := by
  rintro d ⟨⟩
  refine ⟨(Token.stops_of_isBlank cs h c rfl).1, ?_⟩
  intro hmem
  simp only [List.mem_cons, List.not_mem_nil, or_false] at hmem
  rcases hmem with rfl | rfl | rfl | rfl | rfl <;> exact absurd h (by decide)

variable {rest : List Char}

theorem Apart.isDigit (hr : Apart rest) : ∀ c ∈ rest.head?, c.isDigit = false :=
  fun c hc => (hr c hc).1

theorem Apart.ne (hr : Apart rest) {c d : Char} (hc : c ∈ rest.head?)
    (hd : d ∈ ['.', 'e', 'E', '+', '-']) : c ≠ d := by
  rintro rfl
  exact (hr c hc).2 hd

theorem Apart.stops (hr : Apart rest) : Stops rest := by
  intro c hc
  exact ⟨hr.isDigit c hc, hr.ne hc (by simp), hr.ne hc (by simp), hr.ne hc (by simp)⟩

theorem scanFraction_append_of_stops (hr : Stops rest) (cs : List Char) :
    scanFraction (cs ++ rest) = ((scanFraction cs).1, (scanFraction cs).2 ++ rest) := by
  rcases cs with _ | ⟨c, cs⟩
  · rcases rest with _ | ⟨c, rest⟩
    · rfl
    · have hne : c ≠ '.' := (hr c rfl).2.1
      simp [scanFraction, hne]
  · obtain ⟨htake, hdrop⟩ := takeWhile_append_of_head? (fun c hc => (hr c hc).1) cs
    rw [List.cons_append, scanFraction, scanFraction, htake, hdrop]
    split_ifs <;> rfl

theorem scanSign_append_of_apart (hr : Apart rest) (cs : List Char) :
    scanSign (cs ++ rest) = ((scanSign cs).1, (scanSign cs).2 ++ rest) := by
  rcases cs with _ | ⟨c, cs⟩
  · rcases rest with _ | ⟨c, rest⟩
    · rfl
    · have hplus : c ≠ '+' := hr.ne rfl (by simp)
      have hminus : c ≠ '-' := hr.ne rfl (by simp)
      simp [scanSign, hplus, hminus]
  · rw [List.cons_append, scanSign, scanSign]
    split_ifs <;> rfl

theorem scanExponent_append_of_apart (hr : Apart rest) (cs : List Char) :
    scanExponent (cs ++ rest) = ((scanExponent cs).1, (scanExponent cs).2 ++ rest) := by
  rcases cs with _ | ⟨c, cs⟩
  · rcases rest with _ | ⟨c, rest⟩
    · rfl
    · have he : c ≠ 'e' := hr.ne rfl (by simp)
      have hE : c ≠ 'E' := hr.ne rfl (by simp)
      simp [scanExponent, he, hE]
  · obtain ⟨htake, hdrop⟩ := takeWhile_append_of_head? hr.isDigit (scanSign cs).2
    rw [List.cons_append, scanExponent, scanExponent, scanSign_append_of_apart hr]
    simp only [htake, hdrop]
    split_ifs <;> rfl

/-- A character of no numeral ends the scan, whether the numeral is complete or not. -/
theorem scan_append (hr : Apart rest) (cs : List Char) :
    scan (cs ++ rest) = ((scan cs).1, (scan cs).2 ++ rest) := by
  obtain ⟨htake, hdrop⟩ := takeWhile_append_of_head? hr.isDigit cs
  simp only [scan, htake, hdrop, scanFraction_append_of_stops hr.stops,
    scanExponent_append_of_apart hr]

end Numeral

/-! ## Positions -/

/-- The same error in a text with `n` more characters in front. -/
def LexError.later (n : ℕ) : LexError → LexError
  | unexpectedChar char position => .unexpectedChar char (position + n)
  | invalidNumber literal position => .invalidNumber literal (position + n)

open Token

/-- The same tokens are found further on, and the same errors. -/
theorem lexFrom_add_position (n position : ℕ) (previous : Option Token) (cs : List Char) :
    lexFrom (position + n) previous cs =
      (lexFrom position previous cs).mapError (LexError.later n) := by
  fun_induction lexFrom position previous cs with
  | case1 => rw [lexFrom_nil]; rfl
  | case2 position previous c cs hc ih => rw [lexFrom_blank hc, Nat.add_right_comm, ih]
  | case3 position previous c cs hc t ht ih =>
    rw [lexFrom_symbol (by simpa using hc) ht, Nat.add_right_comm, ih]
    cases lexFrom (position + 1) (some t) cs <;> rfl
  | case4 position previous c cs hc ht hstart m hfinite =>
    rename_i ih
    rw [lexFrom_literal (by simpa using hc) ht hstart, if_pos hfinite, Nat.add_right_comm, ih]
    cases lexFrom (position + m.text.length) (some (num m.literal)) (Numeral.scan (c :: cs)).2 <;>
      rfl
  | case5 position previous c cs hc ht hstart m hfinite =>
    rw [lexFrom_literal (by simpa using hc) ht hstart, if_neg hfinite]
    rfl
  | case6 position previous c cs hc ht hstart =>
    rw [lexFrom_other (by simpa using hc) ht (by simpa using hstart)]
    rfl

/-! ## One text after the other -/

/-- The tokens of a text that goes on with `rest`, if the part before `rest` has
    these tokens. -/
def lexThen (position : ℕ) (previous : Option Token) (rest : List Char) (tokens : List Token) :
    Except LexError (List Token) :=
  (lexFrom position (tokens.getLast?.or previous) rest).map (tokens ++ ·)

theorem map_cons_lexThen {x : Except LexError (List Token)} {position : ℕ} {rest : List Char}
    (previous : Option Token) (t : Token) :
    (x >>= lexThen position (some t) rest).map (t :: ·) =
      x.map (t :: ·) >>= lexThen position previous rest := by
  cases x with
  | error e => rfl
  | ok tokens =>
    show (lexThen position (some t) rest tokens).map (t :: ·) =
      lexThen position previous rest (t :: tokens)
    rw [lexThen, lexThen, getLast?_cons_or]
    cases lexFrom position (tokens.getLast?.or (some t)) rest <;> rfl

/-- After the tokens of the first part the lexer goes on from the last one, if
    no numeral reaches across. An error of the first part is the error. -/
theorem lexFrom_append {rest : List Char} (hr : Numeral.Apart rest) (position : ℕ)
    (previous : Option Token) (cs : List Char) :
    lexFrom position previous (cs ++ rest) =
      lexFrom position previous cs >>= lexThen (position + cs.length) previous rest := by
  fun_induction lexFrom position previous cs with
  | case1 position previous =>
    show lexFrom position previous rest = (lexFrom position previous rest).map ([] ++ ·)
    cases lexFrom position previous rest <;> rfl
  | case2 position previous c cs hc ih =>
    rw [List.cons_append, lexFrom_blank hc, ih, List.length_cons, Nat.add_right_comm]
    rfl
  | case3 position previous c cs hc t ht ih =>
    rw [List.cons_append, lexFrom_symbol (by simpa using hc) ht, ih, map_cons_lexThen previous,
      List.length_cons, Nat.add_right_comm]
    rfl
  | case4 position previous c cs hc ht hstart n hfinite =>
    rename_i ih
    -- the scan stops in the first part, and leaves the second one after its own rest
    have hscan := Numeral.scan_append hr (c :: cs)
    rw [List.cons_append] at hscan ⊢
    have hlength := congrArg List.length (Numeral.text_scan_append (c :: cs))
    rw [List.length_append] at hlength
    rw [lexFrom_literal (by simpa using hc) ht hstart, hscan, if_pos hfinite, ih,
      map_cons_lexThen previous, Nat.add_assoc, hlength]
  | case5 position previous c cs hc ht hstart n hfinite =>
    have hscan := Numeral.scan_append hr (c :: cs)
    rw [List.cons_append] at hscan ⊢
    rw [lexFrom_literal (by simpa using hc) ht hstart, hscan, if_neg hfinite]
    rfl
  | case6 position previous c cs hc ht hstart =>
    rw [List.cons_append, lexFrom_other (by simpa using hc) ht (by simpa using hstart)]
    rfl

/-- White space after a text changes nothing. -/
theorem lexFrom_append_blank {blank : List Char} (h : ∀ c ∈ blank, Text.isBlank c = true)
    (position : ℕ) (previous : Option Token) (cs : List Char) :
    lexFrom position previous (cs ++ blank) = lexFrom position previous cs := by
  have hapart : Numeral.Apart blank := by
    rcases blank with _ | ⟨c, blank⟩
    · rintro c ⟨⟩
    · exact Numeral.apart_of_isBlank blank (h c (List.mem_cons_self ..))
  have hnone : ∀ position previous, lexFrom position previous blank = .ok [] := by
    intro position previous
    rw [← List.append_nil blank, lexFrom_blanks h, lexFrom_nil]
  rw [lexFrom_append hapart]
  cases lexFrom position previous cs with
  | error e => rfl
  | ok tokens =>
    show (lexFrom _ _ blank).map (tokens ++ ·) = .ok tokens
    rw [hnone]
    show Except.ok (tokens ++ []) = Except.ok tokens
    rw [List.append_nil]

end PostfixCalc
