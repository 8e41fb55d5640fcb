/-!
# JSON string literals

A string literal is read in two stages. `scanString` takes the literal apart and
checks its syntax: no control character, and only the escapes of the format.
`textOf?` then joins the pieces to a text. The second stage fails if an escape
names one half of a surrogate pair without the other: such a literal is valid,
and may be skipped, but it spells no text.

Results:
* `length_scanString_rest_lt`: what follows a string literal is shorter.
-/

namespace PostfixCalc.Json

/-- An element of a string literal: a character, written as itself or by a short
    escape, or the UTF-16 code unit of a four-digit escape. -/
inductive Piece where
  | char (c : Char)
  | unit (value : Nat)
deriving DecidableEq, Repr

/-! ## Escapes -/

/-- The character of a short escape, by the letter after the backslash. -/
def shortEscape? (c : Char) : Option Char :=
  if c = '"' ∨ c = '\\' ∨ c = '/' then some c
  else if c = 'b' then some '\x08'
  else if c = 'f' then some '\x0C'
  else if c = 'n' then some '\n'
  else if c = 'r' then some '\r'
  else if c = 't' then some '\t'
  else none

/-- The value of a hexadecimal digit. -/
def hexDigit? (c : Char) : Option Nat :=
  if c.isDigit then some (c.toNat - '0'.toNat)
  else if 'a' ≤ c ∧ c ≤ 'f' then some (c.toNat - 'a'.toNat + 10)
  else if 'A' ≤ c ∧ c ≤ 'F' then some (c.toNat - 'A'.toNat + 10)
  else none

/-- The value of hexadecimal digits, most significant first. -/
def hexValue? (digits : List Char) : Option Nat :=
  (digits.mapM hexDigit?).map fun values => values.foldl (16 * · + ·) 0

/-- A control character, which must be escaped. -/
def isControl (c : Char) : Bool := c.toNat < 0x20

/-! ## Scanning -/

/-- The pieces up to the closing quote, and what follows it. -/
def scanString : List Char → Option (List Piece × List Char)
  | '\\' :: 'u' :: a :: b :: c :: d :: cs => do
    let value ← hexValue? [a, b, c, d]
    let (pieces, rest) ← scanString cs
    return (.unit value :: pieces, rest)
  | '\\' :: e :: cs => do
    let c ← shortEscape? e
    let (pieces, rest) ← scanString cs
    return (.char c :: pieces, rest)
  | c :: cs =>
    if c = '"' then some ([], cs)
    else if c = '\\' ∨ isControl c then none
    else do
      let (pieces, rest) ← scanString cs
      return (.char c :: pieces, rest)
  | [] => none

/-- What follows a string literal is shorter. -/
theorem length_scanString_rest_lt {cs rest : List Char} {pieces : List Piece}
    (h : scanString cs = some (pieces, rest)) : rest.length < cs.length := by
  fun_induction scanString cs generalizing pieces rest with
  | case1 a b c d cs ih =>
    simp only [Option.bind_eq_bind, Option.bind_eq_some_iff] at h
    obtain ⟨value, -, ⟨ps, r⟩, hr, h⟩ := h
    have := ih hr
    simp_all
    omega
  | case2 e cs _ ih =>
    simp only [Option.bind_eq_bind, Option.bind_eq_some_iff] at h
    obtain ⟨value, -, ⟨ps, r⟩, hr, h⟩ := h
    have := ih hr
    simp_all
    omega
  | case3 => simp_all
  | case4 => simp at h
  | case5 c cs _ _ _ _ ih =>
    simp only [Option.bind_eq_bind, Option.bind_eq_some_iff] at h
    obtain ⟨⟨ps, r⟩, hr, h⟩ := h
    have := ih hr
    simp_all
    omega
  | case6 => simp at h

/-! ## Text -/

/-- The first half of a surrogate pair. -/
def isHighSurrogate (value : Nat) : Bool := 0xD800 ≤ value && value < 0xDC00

/-- The second half of a surrogate pair. -/
def isLowSurrogate (value : Nat) : Bool := 0xDC00 ≤ value && value < 0xE000

/-- The character of a surrogate pair. -/
def ofSurrogates (high low : Nat) : Char :=
  Char.ofNat (0x10000 + (high - 0xD800) * 0x400 + (low - 0xDC00))

/-- The text that the pieces spell, unless half of a surrogate pair stands alone. -/
def textOf? : List Piece → Option (List Char)
  | [] => some []
  | .char c :: ps => (textOf? ps).map (c :: ·)
  | .unit u :: .unit v :: ps =>
    if isHighSurrogate u then
      if isLowSurrogate v then (textOf? ps).map (ofSurrogates u v :: ·) else none
    else if isLowSurrogate u then none
    else (textOf? (.unit v :: ps)).map (Char.ofNat u :: ·)
  | .unit u :: ps =>
    if isHighSurrogate u || isLowSurrogate u then none
    else (textOf? ps).map (Char.ofNat u :: ·)

end PostfixCalc.Json
