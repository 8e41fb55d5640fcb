import PostfixCalc.Grid

/-!
# What can go wrong

Each stage of a computation has a type of its failures, with the data that its
message shows, and `CalcError` is their sum. The user is addressed in French;
each message is written in one place.
-/

namespace PostfixCalc

/-- Why a text is no list of tokens. Positions count characters from 0. -/
inductive LexError where
  /-- No token starts with this character. -/
  | unexpectedChar (char : Char) (position : Nat)
  /-- The literal names no number, or one too large to be finite. -/
  | invalidNumber (literal : String) (position : Nat)
deriving DecidableEq, Repr

/-- Why the parentheses of an expression do not match. -/
inductive ParenError where
  | unclosed
  | unopened
deriving DecidableEq, Repr

/-- Why a list of tokens is no postfix program. -/
inductive MachineError where
  /-- The operator finds fewer operands on the stack than it takes. -/
  | underflow (operator : String)
  /-- The program does not end with one value, or meets a parenthesis; the stack has this size. -/
  | malformed (remaining : Nat)
  /-- The literal names no number. -/
  | invalidNumber (literal : String)
deriving DecidableEq, Repr

/-- Why an operation on numbers has no result. -/
inductive ArithmeticError where
  | divisionByZero
deriving DecidableEq, Repr

/-- Why a grid is no matrix, or two matrices are no operands. -/
inductive ShapeError where
  /-- There is no row, or the first row is empty. -/
  | empty
  /-- The row, counted from 1, has not the length of the first row. -/
  | ragged (row expected found : Nat)
  | incompatible (operation : GridOperation) (left right : Shape)
deriving DecidableEq, Repr

/-- Why a request cannot be read. -/
inductive RequestError where
  | unreadable
  | invalidJson
  /-- The word names no number. -/
  | invalidNumber (word : String)
  /-- The operands, of the kind named, come without an operation. -/
  | noOperation (operands : String)
  | noOperands
  | noExpression
deriving DecidableEq, Repr

/-- All that can go wrong. -/
inductive CalcError where
  | lex (error : LexError)
  | paren (error : ParenError)
  | machine (error : MachineError)
  /-- No operation is known by this key. -/
  | unsupported (key : String)
  | arithmetic (error : ArithmeticError)
  | shape (error : ShapeError)
  | request (error : RequestError)
deriving DecidableEq, Repr

/-! ## Messages -/

/-- The message of a `LexError`. -/
def LexError.message : LexError → String
  | unexpectedChar char position => s!"caractère inattendu: '{char}' (position {position})"
  | invalidNumber literal position => s!"nombre invalide: '{literal}' (position {position})"

/-- The message of a `ParenError`. -/
def ParenError.message : ParenError → String
  | unclosed => "parenthèses non fermées"
  | unopened => "parenthèse fermante sans ouvrante"

/-- The message of a `MachineError`. -/
def MachineError.message : MachineError → String
  | underflow operator => s!"pile vide: opérandes manquants pour '{operator}'"
  | malformed remaining => s!"expression invalide ({remaining} valeur(s) sur la pile)"
  | invalidNumber literal => s!"nombre invalide en RPN: '{literal}'"

/-- The message of an `ArithmeticError`. -/
def ArithmeticError.message : ArithmeticError → String
  | divisionByZero => "division par zéro"

/-- The message of a `ShapeError`. -/
def ShapeError.message : ShapeError → String
  | empty => "opération impossible sur une matrice vide"
  | ragged row expected found => s!"ligne {row}: {found} colonne(s) au lieu de {expected}"
  | incompatible operation left right =>
    s!"dimensions incompatibles pour {operation.name}: {left.text} et {right.text}"

/-- The detail that the message of a `RequestError` gives. -/
def RequestError.detail : RequestError → String
  | unreadable => "lecture impossible"
  | invalidJson => "JSON invalide"
  | invalidNumber word => s!"nombre invalide: '{word}'"
  | noOperation operands => s!"champ \"operation\" manquant ({operands})"
  | noOperands => "données d'entrée invalides"
  | noExpression => "Entrée vide"

/-- The message shown for an error. -/
def CalcError.message : CalcError → String
  | lex error => error.message
  | paren error => error.message
  | machine error => error.message
  | unsupported key => s!"opération non supportée: '{key}'"
  | arithmetic error => error.message
  | shape error => error.message
  | request error => "requête invalide: " ++ error.detail

end PostfixCalc
