/-!
# Tokens

Expressions, in infix and in postfix order, are lists of tokens. A number keeps
the literal that spells it, so that the steps of a computation show what was
typed.
-/

namespace PostfixCalc

/-- A token of an expression: a number literal, a binary operator, the unary
    minus or a parenthesis. -/
inductive Token where
  | num (literal : String)
  | op (symbol : Char)
  | neg
  | lpar
  | rpar
deriving DecidableEq, Repr

namespace Token

/-- The binary operators and the unary minus. -/
def isOperator : Token → Bool
  | op _ | neg => true
  | num _ | lpar | rpar => false

/-- How tightly an operator binds. An operator outside the four binds loosest,
    and a token that is no operator has no say. -/
def precedence : Token → Nat
  | op '+' | op '-' => 1
  | op '*' | op '/' => 2
  | neg => 3
  | _ => 0

/-- How a token is shown; the unary minus is `u-`, to tell it from the subtraction. -/
def text : Token → String
  | num literal => literal
  | op symbol => String.singleton symbol
  | neg => "u-"
  | lpar => "("
  | rpar => ")"

/-- How a list of tokens is shown: one space between two of them. -/
def listText (tokens : List Token) : String :=
  " ".intercalate (tokens.map text)

end Token

end PostfixCalc
