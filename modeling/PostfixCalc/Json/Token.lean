import PostfixCalc.Decimal.Numeral
import PostfixCalc.Json.StringLiteral

/-!
# JSON tokens

The lexer of the format: four white-space characters, six punctuation marks,
three words, numbers and string literals. Numbers follow a stricter grammar than
numerals do elsewhere, and are kept as written, so that a number of any size is
a valid token.

Results:
* `length_next?_lt`: each token takes at least one character.
-/

namespace PostfixCalc

/-- The numerals of the format: at least one digit before the point, with no
    zero in front of another digit, and at least one digit after a point and
    after an exponent mark. -/
def Numeral.isJson (n : Numeral) : Bool :=
  (n.whole.length == 1 || (!n.whole.isEmpty && n.whole.head? != some '0')) &&
    n.fraction.all (!·.isEmpty) && n.exponent.all (!·.digits.isEmpty)

namespace Json

/-- A token of the format. -/
inductive Token where
  | openArray
  | closeArray
  | openObject
  | closeObject
  | comma
  | colon
  | null
  | bool (value : Bool)
  | number (negative : Bool) (magnitude : Numeral)
  | string (pieces : List Piece)
deriving DecidableEq, Repr

namespace Token

/-- The white space of the format. -/
def isSpace (c : Char) : Bool := c = ' ' || c = '\t' || c = '\n' || c = '\r'

/-- A number without its sign, at the start of `cs`. -/
def scanNumber (negative : Bool) (cs : List Char) : Option (Token × List Char) :=
  let scanned := Numeral.scan cs
  if scanned.1.isJson then some (.number negative scanned.1, scanned.2) else none

/-- The token that starts with `c`, and what follows it. -/
def next? (c : Char) (cs : List Char) : Option (Token × List Char) :=
  match c with
  | '[' => some (.openArray, cs)
  | ']' => some (.closeArray, cs)
  | '\x7b' => some (.openObject, cs)
  | '\x7d' => some (.closeObject, cs)
  | ',' => some (.comma, cs)
  | ':' => some (.colon, cs)
  | 'n' => ("ull".toList.isPrefixOf? cs).map (.null, ·)
  | 't' => ("rue".toList.isPrefixOf? cs).map (.bool true, ·)
  | 'f' => ("alse".toList.isPrefixOf? cs).map (.bool false, ·)
  | '"' => (scanString cs).map fun r => (.string r.1, r.2)
  | '-' => scanNumber true cs
  | _ => if c.isDigit then scanNumber false (c :: cs) else none

theorem length_isPrefixOf? {pre cs rest : List Char} (h : pre.isPrefixOf? cs = some rest) :
    rest.length ≤ cs.length := by
  induction pre generalizing cs with
  | nil =>
    obtain rfl : cs = rest := Option.some.inj h
    exact Nat.le_refl _
  | cons p pre ih =>
    cases cs with
    | nil => cases h
    | cons c cs =>
      have hstep : (if p == c then pre.isPrefixOf? cs else none) = some rest := h
      split at hstep
      · exact Nat.le_succ_of_le (ih hstep)
      · cases hstep

theorem length_scan_le (cs : List Char) : (Numeral.scan cs).2.length ≤ cs.length := by
  have := congrArg List.length (Numeral.text_scan_append cs)
  simp only [List.length_append] at this
  omega

/-- Each token takes at least one character. -/
theorem length_next?_lt {c : Char} {cs rest : List Char} {t : Token}
    (h : next? c cs = some (t, rest)) : rest.length < (c :: cs).length := by
  have hmap {pre : List Char} {u : Token} (h : (pre.isPrefixOf? cs).map (u, ·) = some (t, rest)) :
      rest.length < (c :: cs).length := by
    obtain ⟨r, hr, h⟩ := Option.map_eq_some_iff.1 h
    obtain ⟨-, rfl⟩ := Prod.mk.inj h
    exact Nat.lt_succ_of_le (length_isPrefixOf? hr)
  unfold next? at h
  split at h
  · simp_all
  · simp_all
  · simp_all
  · simp_all
  · simp_all
  · simp_all
  · exact hmap h
  · exact hmap h
  · exact hmap h
  · obtain ⟨r, hr, h⟩ := Option.map_eq_some_iff.1 h
    obtain ⟨-, rfl⟩ := Prod.mk.inj h
    exact Nat.lt_succ_of_lt (length_scanString_rest_lt hr)
  · simp only [scanNumber] at h
    split at h
    · obtain ⟨-, rfl⟩ := Prod.mk.inj (Option.some.inj h)
      exact Nat.lt_succ_of_le (length_scan_le cs)
    · simp at h
  · split at h
    · next hd =>
      simp only [scanNumber] at h
      split at h
      · obtain ⟨-, rfl⟩ := Prod.mk.inj (Option.some.inj h)
        exact Numeral.length_scan_rest_lt (.inl hd)
      · simp at h
    · simp at h

/-- The tokens of a text. -/
def ofChars? : List Char → Option (List Token)
  | [] => some []
  | c :: cs =>
    if isSpace c then ofChars? cs
    else
      match _h : next? c cs with
      | none => none
      | some (t, rest) => (ofChars? rest).map (t :: ·)
termination_by cs => cs.length
decreasing_by
  · exact Nat.lt_succ_self _
  · exact length_next?_lt _h

end Token

end Json

end PostfixCalc
