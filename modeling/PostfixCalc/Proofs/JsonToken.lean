import PostfixCalc.Json.Token
import PostfixCalc.Proofs.Literal

/-!
# How JSON tokens are written

A punctuation mark and a word are written in one way each, a number as its
numeral, and a string in many ways: every character may be escaped. The lexer
reads a token from each of these texts and from no other. It takes a number as
far as it goes, so what follows a number must not go on with it.

Results:
* `hexDigit?_eq_some_iff`, `shortEscape?_eq_some_iff`: the parts of an escape.
* `exists_quoted_of_scanString`, `scanString_quoted`: a string literal is read
  from its characters, up to the first quote that is not escaped.
* `Numeral.strict_scan`, `Numeral.Strict.isJson`: which numerals are numbers of
  the format.
* `Token.exists_written_of_next?`, `Token.next?_written`: a token is read from
  what is written for it.
* `Token.exists_written_of_ofChars?`, `Token.ofChars?_written`: so is the first
  token of a text, with white space in front of it.
-/

namespace PostfixCalc

/-! ## Numbers -/

namespace Numeral

/-- `int [frac] [exp]`: there are digits before the point, a zero in front of
    them stands alone, and digits follow a point. -/
structure Strict (n : Numeral) : Prop extends n.WellFormed where
  whole_ne_nil : n.whole ≠ []
  leading_zero : n.whole.head? = some '0' → n.whole = ['0']
  fraction_ne_nil : ∀ ds ∈ n.fraction, ds ≠ []

theorem isJson_iff {n : Numeral} :
    n.isJson = true ↔ (n.whole ≠ [] ∧ (n.whole.head? = some '0' → n.whole = ['0'])) ∧
      (∀ ds ∈ n.fraction, ds ≠ []) ∧ ∀ e ∈ n.exponent, e.digits ≠ [] := by
  obtain ⟨whole, fraction, exponent⟩ := n
  have hwhole : (whole.length == 1 || (!whole.isEmpty && whole.head? != some '0')) = true ↔
      whole ≠ [] ∧ (whole.head? = some '0' → whole = ['0']) := by
    rcases whole with _ | ⟨c, _ | ⟨d, whole⟩⟩ <;> simp
  have hfraction : fraction.all (!·.isEmpty) = true ↔ ∀ ds ∈ fraction, ds ≠ [] := by
    cases fraction <;> simp
  have hexponent : exponent.all (!·.digits.isEmpty) = true ↔ ∀ e ∈ exponent, e.digits ≠ [] := by
    cases exponent <;> simp
  rw [isJson, Bool.and_eq_true, Bool.and_eq_true, hwhole, hfraction, hexponent, and_assoc]

theorem Strict.isJson {n : Numeral} (h : n.Strict) : n.isJson = true :=
  isJson_iff.mpr ⟨⟨h.whole_ne_nil, h.leading_zero⟩, h.fraction_ne_nil,
    fun e he => (h.exponent e he).ne_nil⟩

/-- What is scanned and has digits in all its parts is a number of the format. -/
theorem strict_scan {cs : List Char} (h : (scan cs).1.isJson = true) : (scan cs).1.Strict := by
  obtain ⟨⟨hne, hzero⟩, hfraction, hexponent⟩ := isJson_iff.mp h
  have hcomplete : (scan cs).1.isComplete = true := by
    have hsignificand : (scan cs).1.significand ≠ [] := by simp [significand, hne]
    have hall : (scan cs).1.exponent.all (!·.digits.isEmpty) = true := by
      rcases hexp : (scan cs).1.exponent with _ | e
      · rfl
      · simpa using hexponent e hexp
    simp [isComplete, hsignificand, hall]
  exact ⟨wellFormed_scan hcomplete, hne, hzero, hfraction⟩

end Numeral

namespace Json

/-! ## Escapes -/

/-- `c` is the hexadecimal digit of the value `v`, in lower or upper case. -/
def IsHexDigit (c : Char) (v : ℕ) : Prop :=
  "0123456789abcdef".toList[v]? = some c ∨ "0123456789ABCDEF".toList[v]? = some c

instance (c : Char) (v : ℕ) : Decidable (IsHexDigit c v) :=
  inferInstanceAs (Decidable (_ ∨ _))

/-- The escapes by one letter: the letter after the backslash and its character. -/
def shortEscapes : List (Char × Char) :=
  [('"', '"'), ('\\', '\\'), ('/', '/'), ('b', '\x08'), ('f', '\x0C'), ('n', '\n'), ('r', '\r'),
    ('t', '\t')]

theorem hexDigit?_eq_some_iff {c : Char} {v : ℕ} : hexDigit? c = some v ↔ IsHexDigit c v := by
  constructor
  · intro h
    have hle : c ≤ 'f' := by
      unfold hexDigit? at h
      split_ifs at h with hdigit hlower hupper
      · simp only [Char.isDigit, Bool.and_eq_true, decide_eq_true_eq] at hdigit
        exact Char.le_trans hdigit.2 (by decide)
      · exact hlower.2
      · exact Char.le_trans hupper.2 (by decide)
    have hlt : c.toNat < 128 := Nat.lt_of_le_of_lt hle (by decide)
    have hall : ∀ n < 128, ∀ u ∈ hexDigit? (Char.ofNat n), IsHexDigit (Char.ofNat n) u := by
      decide +kernel
    have hread := hall c.toNat hlt v
    rw [Char.ofNat_toNat] at hread
    exact hread h
  · rintro (h | h)
    · have hall : ∀ p ∈ "0123456789abcdef".toList.zipIdx, hexDigit? p.1 = some p.2 := by decide
      exact hall (c, v) (List.mem_zipIdx_iff_getElem?.mpr h)
    · have hall : ∀ p ∈ "0123456789ABCDEF".toList.zipIdx, hexDigit? p.1 = some p.2 := by decide
      exact hall (c, v) (List.mem_zipIdx_iff_getElem?.mpr h)

theorem hexValue?_eq_some_iff {a b c d : Char} {u : ℕ} :
    hexValue? [a, b, c, d] = some u ↔ ∃ i j k l, IsHexDigit a i ∧ IsHexDigit b j ∧
      IsHexDigit c k ∧ IsHexDigit d l ∧ u = 4096 * i + 256 * j + 16 * k + l := by
  simp only [hexValue?, List.mapM_cons, List.mapM_nil, Option.map_eq_some_iff,
    Option.bind_eq_bind, Option.bind_eq_some_iff, hexDigit?_eq_some_iff]
  constructor
  · rintro ⟨_, ⟨i, hi, _, ⟨j, hj, _, ⟨k, hk, _, ⟨l, hl, _, ⟨⟩, ⟨⟩⟩, ⟨⟩⟩, ⟨⟩⟩, ⟨⟩⟩, rfl⟩
    refine ⟨i, j, k, l, hi, hj, hk, hl, ?_⟩
    simp only [List.foldl]
    omega
  · rintro ⟨i, j, k, l, hi, hj, hk, hl, rfl⟩
    refine ⟨[i, j, k, l],
      ⟨i, hi, _, ⟨j, hj, _, ⟨k, hk, _, ⟨l, hl, _, rfl, rfl⟩, rfl⟩, rfl⟩, rfl⟩, ?_⟩
    simp only [List.foldl]
    omega

theorem shortEscape?_eq_some_iff {e c : Char} :
    shortEscape? e = some c ↔ (e, c) ∈ shortEscapes := by
  constructor
  · intro h
    unfold shortEscape? at h
    split_ifs at h with hself <;> obtain rfl := Option.some.inj h
    · rcases hself with rfl | rfl | rfl <;> decide
    all_goals subst e; decide
  · have hall : ∀ p ∈ shortEscapes, shortEscape? p.1 = some p.2 := by decide
    exact hall (e, c)

/-! ## String literals -/

/-- The characters between the quotes of a string literal, and the pieces that
    they stand for. All characters but the quote, the backslash and the control
    characters may stand for themselves. -/
inductive Quoted : List Char → List Piece → Prop
  | nil : Quoted [] []
  | char {c : Char} {cs : List Char} {ps : List Piece} : c ≠ '"' → c ≠ '\\' → 0x20 ≤ c.toNat →
      Quoted cs ps → Quoted (c :: cs) (.char c :: ps)
  | escape {e c : Char} {cs : List Char} {ps : List Piece} : (e, c) ∈ shortEscapes →
      Quoted cs ps → Quoted ('\\' :: e :: cs) (.char c :: ps)
  | unit {a b c d : Char} {i j k l : ℕ} {cs : List Char} {ps : List Piece} : IsHexDigit a i →
      IsHexDigit b j → IsHexDigit c k → IsHexDigit d l → Quoted cs ps →
      Quoted ('\\' :: 'u' :: a :: b :: c :: d :: cs)
        (.unit (4096 * i + 256 * j + 16 * k + l) :: ps)

/-- What is read as a string literal is one, and a quote ends it. -/
theorem exists_quoted_of_scanString {cs rest : List Char} {ps : List Piece}
    (h : scanString cs = some (ps, rest)) : ∃ body, Quoted body ps ∧ cs = body ++ '"' :: rest := by
  fun_induction scanString cs generalizing ps rest with
  | case1 a b c d cs ih =>
    simp only [Option.bind_eq_bind, Option.bind_eq_some_iff] at h
    obtain ⟨u, hu, ⟨qs, r⟩, hscan, h⟩ := h
    obtain ⟨rfl, rfl⟩ := Prod.mk.inj (Option.some.inj h)
    obtain ⟨i, j, k, l, hi, hj, hk, hl, rfl⟩ := hexValue?_eq_some_iff.mp hu
    obtain ⟨body, hbody, rfl⟩ := ih hscan
    exact ⟨_, .unit hi hj hk hl hbody, rfl⟩
  | case2 e cs _ ih =>
    simp only [Option.bind_eq_bind, Option.bind_eq_some_iff] at h
    obtain ⟨c, hc, ⟨qs, r⟩, hscan, h⟩ := h
    obtain ⟨rfl, rfl⟩ := Prod.mk.inj (Option.some.inj h)
    obtain ⟨body, hbody, rfl⟩ := ih hscan
    exact ⟨_, .escape (shortEscape?_eq_some_iff.mp hc) hbody, rfl⟩
  | case3 cs =>
    obtain ⟨rfl, rfl⟩ := Prod.mk.inj (Option.some.inj h)
    exact ⟨[], .nil, rfl⟩
  | case4 => cases h
  | case5 c cs _ _ hquote hbad ih =>
    simp only [Option.bind_eq_bind, Option.bind_eq_some_iff] at h
    obtain ⟨⟨qs, r⟩, hscan, h⟩ := h
    obtain ⟨rfl, rfl⟩ := Prod.mk.inj (Option.some.inj h)
    obtain ⟨body, hbody, rfl⟩ := ih hscan
    obtain ⟨hslash, hcontrol⟩ := not_or.mp hbad
    refine ⟨c :: body, .char hquote hslash ?_ hbody, rfl⟩
    simpa [isControl] using hcontrol
  | case6 => cases h

/-- The characters of a string literal are read up to the quote that ends it. -/
theorem scanString_quoted {body : List Char} {ps : List Piece} (h : Quoted body ps)
    (rest : List Char) : scanString (body ++ '"' :: rest) = some (ps, rest) := by
  induction h with
  | nil => simp [scanString]
  | @char c cs ps hquote hslash hcontrol _ ih =>
    have hbad : ¬ (c = '\\' ∨ isControl c = true) := by simp [hslash, isControl, hcontrol]
    rw [List.cons_append, scanString, if_neg hquote, if_neg hbad, ih]
    · rfl
    -- no escape starts here
    all_goals intros; contradiction
  | @escape e c cs ps he _ ih =>
    have hu : e ≠ 'u' := by
      rintro rfl
      simp [shortEscapes] at he
    rw [List.cons_append, List.cons_append, scanString, shortEscape?_eq_some_iff.mpr he, ih]
    · rfl
    · intros; contradiction
  | unit hi hj hk hl _ ih =>
    simp only [List.cons_append]
    rw [scanString, hexValue?_eq_some_iff.mpr ⟨_, _, _, _, hi, hj, hk, hl, rfl⟩, ih]
    rfl

/-! ## Tokens -/

/-- White space of the format. -/
def Blank (cs : List Char) : Prop := ∀ c ∈ cs, c = ' ' ∨ c = '\t' ∨ c = '\n' ∨ c = '\r'

namespace Token

/-- What is written for a token. -/
inductive Written : Token → List Char → Prop
  | openArray : Written .openArray ['[']
  | closeArray : Written .closeArray [']']
  | openObject : Written .openObject ['\x7b']
  | closeObject : Written .closeObject ['\x7d']
  | comma : Written .comma [',']
  | colon : Written .colon [':']
  | null : Written .null "null".toList
  | true : Written (.bool true) "true".toList
  | false : Written (.bool false) "false".toList
  | positive {n : Numeral} : n.Strict → Written (.number false n) n.text
  | negative {n : Numeral} : n.Strict → Written (.number true n) ('-' :: n.text)
  | string {body : List Char} {ps : List Piece} : Quoted body ps →
      Written (.string ps) ('"' :: (body ++ ['"']))

theorem isSpace_iff {c : Char} : isSpace c = true ↔ c = ' ' ∨ c = '\t' ∨ c = '\n' ∨ c = '\r' := by
  simp [isSpace, or_assoc]

/-- What is read as a number is a numeral of the format. -/
theorem exists_strict_of_scanNumber {negative : Bool} {cs rest : List Char} {t : Token}
    (h : scanNumber negative cs = some (t, rest)) :
    ∃ n : Numeral, n.Strict ∧ t = .number negative n ∧ cs = n.text ++ rest := by
  simp only [scanNumber] at h
  split_ifs at h with hjson
  obtain ⟨rfl, rfl⟩ := Prod.mk.inj (Option.some.inj h)
  exact ⟨_, Numeral.strict_scan hjson, rfl, (Numeral.text_scan_append cs).symm⟩

theorem scanNumber_text {n : Numeral} (h : n.Strict) (negative : Bool) {rest : List Char}
    (hr : Numeral.Stops rest) :
    scanNumber negative (n.text ++ rest) = some (.number negative n, rest) := by
  simp only [scanNumber, Numeral.scan_text_append h.toWellFormed hr, h.isJson, if_true]

theorem next?_of_isDigit {c : Char} (h : c.isDigit = true) (cs : List Char) :
    next? c cs = scanNumber false (c :: cs) := by
  unfold next?
  split
  case h_12 => rw [if_pos h]
  all_goals exact absurd h (by decide)

/-- What is read as a token is written for it. -/
theorem exists_written_of_next? {c : Char} {cs rest : List Char} {t : Token}
    (h : next? c cs = some (t, rest)) : ∃ text, t.Written text ∧ c :: cs = text ++ rest := by
  have hmark {d : Char} {u : Token} (hu : u.Written [d]) (h : some (u, cs) = some (t, rest)) :
      ∃ text, t.Written text ∧ d :: cs = text ++ rest := by
    obtain ⟨rfl, rfl⟩ := Prod.mk.inj (Option.some.inj h)
    exact ⟨_, hu, rfl⟩
  have hword {d : Char} {pre : List Char} {u : Token} (hu : u.Written (d :: pre))
      (h : (pre.isPrefixOf? cs).map (u, ·) = some (t, rest)) :
      ∃ text, t.Written text ∧ d :: cs = text ++ rest := by
    obtain ⟨r, hr, h⟩ := Option.map_eq_some_iff.mp h
    obtain ⟨rfl, rfl⟩ := Prod.mk.inj h
    exact ⟨_, hu, by rw [List.cons_append, List.isPrefixOf?_eq_some_iff_append_eq.mp hr]⟩
  unfold next? at h
  split at h
  · exact hmark .openArray h
  · exact hmark .closeArray h
  · exact hmark .openObject h
  · exact hmark .closeObject h
  · exact hmark .comma h
  · exact hmark .colon h
  · exact hword .null h
  · exact hword .true h
  · exact hword .false h
  · obtain ⟨⟨ps, r⟩, hscan, h⟩ := Option.map_eq_some_iff.mp h
    obtain ⟨rfl, rfl⟩ := Prod.mk.inj h
    obtain ⟨body, hbody, rfl⟩ := exists_quoted_of_scanString hscan
    exact ⟨_, .string hbody, by simp⟩
  · obtain ⟨n, hn, rfl, rfl⟩ := exists_strict_of_scanNumber h
    exact ⟨_, .negative hn, rfl⟩
  · split_ifs at h with hdigit
    obtain ⟨n, hn, rfl, hcs⟩ := exists_strict_of_scanNumber h
    exact ⟨_, .positive hn, hcs⟩

/-- What is written for a token is read as it, if a number does not go on. -/
theorem next?_written {t : Token} {text rest : List Char} (h : t.Written text)
    (hr : Numeral.Stops rest) :
    ∃ c cs, text ++ rest = c :: cs ∧ isSpace c = false ∧ next? c cs = some (t, rest) := by
  have hword {d : Char} {pre : List Char} {u : Token}
      (hnext : ∀ cs, next? d cs = (pre.isPrefixOf? cs).map (u, ·)) :
      next? d (pre ++ rest) = some (u, rest) := by
    rw [hnext, List.isPrefixOf?_eq_some_iff_append_eq.mpr rfl, Option.map_some]
  cases h with
  | openArray | closeArray | openObject | closeObject | comma | colon =>
    exact ⟨_, _, rfl, rfl, rfl⟩
  | null => exact ⟨_, _, rfl, rfl, hword fun _ => rfl⟩
  | true => exact ⟨_, _, rfl, rfl, hword fun _ => rfl⟩
  | false => exact ⟨_, _, rfl, rfl, hword fun _ => rfl⟩
  | @positive n hn =>
    obtain ⟨c, whole, hwhole⟩ := List.exists_cons_of_ne_nil hn.whole_ne_nil
    have hdigit : c.isDigit = true := hn.whole c (by simp [hwhole])
    have hspace : isSpace c = false := by
      rw [← Bool.not_eq_true, isSpace_iff]
      rintro (rfl | rfl | rfl | rfl) <;> exact absurd hdigit (by decide)
    have htext : n.text ++ rest = c :: (n.text.tail ++ rest) := by simp [Numeral.text, hwhole]
    refine ⟨c, _, htext, hspace, ?_⟩
    rw [next?_of_isDigit hdigit, ← htext, scanNumber_text hn _ hr]
  | negative hn => exact ⟨_, _, rfl, rfl, scanNumber_text hn _ hr⟩
  | @string body ps hbody =>
    have hscan : next? '"' (body ++ '"' :: rest) = some (.string ps, rest) := by
      rw [next?, scanString_quoted hbody, Option.map_some]
    exact ⟨'"', body ++ '"' :: rest, by simp, rfl, hscan⟩

/-! ## The tokens of a text -/

theorem ofChars?_cons_of_isSpace {c : Char} (h : isSpace c = true) (cs : List Char) :
    ofChars? (c :: cs) = ofChars? cs := by
  rw [ofChars?, if_pos h]

theorem ofChars?_cons {c : Char} (h : isSpace c = false) (cs : List Char) :
    ofChars? (c :: cs) = (next? c cs).bind fun p => (ofChars? p.2).map (p.1 :: ·) := by
  rw [ofChars?, if_neg (by simp [h])]
  split
  · next hnext => rw [hnext]; rfl
  · next hnext => rw [hnext]; rfl

/-- White space is skipped. -/
theorem ofChars?_blank {blank : List Char} (h : Blank blank) (cs : List Char) :
    ofChars? (blank ++ cs) = ofChars? cs := by
  induction blank with
  | nil => rfl
  | cons c blank ih =>
    have hspace : isSpace c = true := isSpace_iff.mpr (h c (List.mem_cons_self ..))
    rw [List.cons_append, ofChars?_cons_of_isSpace hspace]
    exact ih fun d hd => h d (List.mem_cons_of_mem _ hd)

/-- What is written for a token is read as the first token. -/
theorem ofChars?_written {t : Token} {text rest : List Char} (h : t.Written text)
    (hr : Numeral.Stops rest) : ofChars? (text ++ rest) = (ofChars? rest).map (t :: ·) := by
  obtain ⟨c, cs, htext, hspace, hnext⟩ := next?_written h hr
  rw [htext, ofChars?_cons hspace, hnext]
  rfl

/-- A text without tokens is white space. -/
theorem blank_of_ofChars? {cs : List Char} (h : ofChars? cs = some []) : Blank cs := by
  induction cs with
  | nil => simp [Blank]
  | cons c cs ih =>
    by_cases hspace : isSpace c = true
    · rw [ofChars?_cons_of_isSpace hspace] at h
      exact List.forall_mem_cons.mpr ⟨isSpace_iff.mp hspace, ih h⟩
    · rw [ofChars?_cons (by simpa using hspace)] at h
      obtain ⟨p, -, h⟩ := Option.bind_eq_some_iff.mp h
      simp at h

/-- The first token of a text is written in it, after white space. -/
theorem exists_written_of_ofChars? {cs : List Char} {t : Token} {ts : List Token}
    (h : ofChars? cs = some (t :: ts)) :
    ∃ blank text rest, Blank blank ∧ t.Written text ∧ cs = blank ++ (text ++ rest) ∧
      ofChars? rest = some ts := by
  induction cs with
  | nil => simp [ofChars?] at h
  | cons c cs ih =>
    by_cases hspace : isSpace c = true
    · rw [ofChars?_cons_of_isSpace hspace] at h
      obtain ⟨blank, text, rest, hblank, htext, rfl, hrest⟩ := ih h
      exact ⟨c :: blank, text, rest, List.forall_mem_cons.mpr ⟨isSpace_iff.mp hspace, hblank⟩,
        htext, rfl, hrest⟩
    · rw [ofChars?_cons (by simpa using hspace)] at h
      obtain ⟨⟨u, rest⟩, hnext, h⟩ := Option.bind_eq_some_iff.mp h
      obtain ⟨us, hrest, h⟩ := Option.map_eq_some_iff.mp h
      obtain ⟨rfl, rfl⟩ := List.cons.inj h
      obtain ⟨text, htext, hcs⟩ := exists_written_of_next? hnext
      exact ⟨[], text, rest, by simp [Blank], htext, hcs, hrest⟩

end Token

end Json

end PostfixCalc
