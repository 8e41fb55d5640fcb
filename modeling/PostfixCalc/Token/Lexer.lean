import PostfixCalc.Error
import PostfixCalc.Scalar
import PostfixCalc.Text.Blank
import PostfixCalc.Token

/-!
# From text to tokens

White space separates tokens and is skipped. A number literal is the longest
text of its shape, and must name a finite number. Whether `-` subtracts or
negates is decided by the token before it.

Results:
* `lexFrom_nil`, `lexFrom_blank`, `lexFrom_symbol`, `lexFrom_literal`,
  `lexFrom_other`: the next step of the lexer, by the kind of the next
  character.
-/

namespace PostfixCalc

namespace Token

/-- Whether an operand must follow the token: `-` after an operator or an
    opening parenthesis negates. -/
def awaitsOperand : Token → Bool
  | op _ | neg | lpar => true
  | num _ | rpar => false

/-- The token of `-` after `previous`, which is none at the start of the text. -/
def ofMinus (previous : Option Token) : Token :=
  if previous.all awaitsOperand then neg else op '-'

/-- The token that a single character stands for after `previous`. -/
def ofSymbol? (previous : Option Token) (c : Char) : Option Token :=
  if c = '(' then some lpar
  else if c = ')' then some rpar
  else if c = '+' ∨ c = '*' ∨ c = '/' then some (op c)
  else if c = '-' then some (ofMinus previous)
  else none

/-- Whether a number literal starts with `c`. -/
def startsLiteral (c : Char) : Bool := c.isDigit || c == '.'

end Token

/-- The literal as a string. -/
def Numeral.literal (n : Numeral) : String := String.ofList n.text

/-- Whether the numeral names a finite number. -/
def Numeral.isFinite (n : Numeral) : Bool := n.toFloat?.any Float.isFinite

open Token

/-- The tokens of `cs`, which starts at `position` in the text and follows the token `previous`. -/
def lexFrom (position : Nat) (previous : Option Token) : List Char → Except LexError (List Token)
  | [] => .ok []
  | c :: cs =>
    if Text.isBlank c then lexFrom (position + 1) previous cs
    else
      match ofSymbol? previous c with
      | some t => (lexFrom (position + 1) (some t) cs).map (t :: ·)
      | none =>
        if _h : startsLiteral c then
          let n := (Numeral.scan (c :: cs)).1
          if n.isFinite then
            (lexFrom (position + n.text.length) (some (num n.literal)) (Numeral.scan (c :: cs)).2).map
              (num n.literal :: ·)
          else .error (.invalidNumber n.literal position)
        else .error (.unexpectedChar c position)
termination_by cs => cs.length
decreasing_by
  · exact Nat.lt_succ_self _
  · exact Nat.lt_succ_self _
  · exact Numeral.length_scan_rest_lt (by simpa [startsLiteral] using _h)

/-- The tokens of a text. -/
def tokenize (s : String) : Except LexError (List Token) :=
  lexFrom 0 none s.toList

/-! ## One step -/

variable {position : Nat} {previous : Option Token} {c : Char} {cs : List Char}

theorem lexFrom_nil : lexFrom position previous [] = .ok [] := by
  simp [lexFrom]

/-- White space is skipped and counted. -/
theorem lexFrom_blank (h : Text.isBlank c = true) :
    lexFrom position previous (c :: cs) = lexFrom (position + 1) previous cs := by
  simp [lexFrom, h]

/-- A symbol is a token of its own. -/
theorem lexFrom_symbol {t : Token} (h : Text.isBlank c = false)
    (ht : ofSymbol? previous c = some t) :
    lexFrom position previous (c :: cs) = (lexFrom (position + 1) (some t) cs).map (t :: ·) := by
  simp [lexFrom, h, ht]

/-- A literal is one token, or the error of a number that is not finite. -/
theorem lexFrom_literal (h : Text.isBlank c = false) (ht : ofSymbol? previous c = none)
    (hc : startsLiteral c = true) :
    lexFrom position previous (c :: cs) =
      if (Numeral.scan (c :: cs)).1.isFinite then
        (lexFrom (position + (Numeral.scan (c :: cs)).1.text.length)
          (some (num (Numeral.scan (c :: cs)).1.literal)) (Numeral.scan (c :: cs)).2).map
            (num (Numeral.scan (c :: cs)).1.literal :: ·)
      else .error (.invalidNumber (Numeral.scan (c :: cs)).1.literal position) := by
  simp [lexFrom, h, ht, hc]

/-- Any other character is an error. -/
theorem lexFrom_other (h : Text.isBlank c = false) (ht : ofSymbol? previous c = none)
    (hc : startsLiteral c = false) :
    lexFrom position previous (c :: cs) = .error (.unexpectedChar c position) := by
  simp [lexFrom, h, ht, hc]

end PostfixCalc
