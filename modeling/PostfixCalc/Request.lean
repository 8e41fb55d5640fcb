import PostfixCalc.Error
import PostfixCalc.Json.Value
import PostfixCalc.Scalar

/-!
# Requests

A request asks for a computation in a JSON text: an object with up to five known
keys, or a list of exactly the five values in a fixed order. A key that is
missing and a key with `null` are the same; a known key must not stand twice,
and unknown keys are skipped. The types of the known fields are checked even if
the computation does not use them.
-/

namespace PostfixCalc

/-- The fields of a request, all of which may be missing. -/
structure Request where
  operation : Option String
  numbers : Option (List Float)
  matrixA : Option Grid
  matrixB : Option Grid
  expression : Option String

namespace Json.Value

/-! ## Typed values -/

/-- The text of a string. -/
def text? : Value → Option String
  | string pieces => (textOf? pieces).map String.ofList
  | _ => none

/-- A number that is finite when rounded. -/
def float? : Value → Option Float
  | number negative magnitude =>
    let x := magnitude.decimal.toFloat
    if x.isFinite then some (if negative then -x else x) else none
  | _ => none

/-- A list whose elements are all read by `read`. -/
def listOf? {α : Type} (read : Value → Option α) : Value → Option (List α)
  | array elements => elements.mapM read
  | _ => none

/-- A list of rows of numbers. -/
def grid? : Value → Option Grid := listOf? (listOf? float?)

/-- A value that may be `null` in place of what `read` reads. -/
def orNull? {α : Type} (read : Value → Option α) : Value → Option (Option α)
  | null => some none
  | v => (read v).map some

end Json.Value

namespace Request

open Json (Value textOf?)

/-- The members of an object with the text of their keys; none if a key spells no text. -/
def keyed? (members : List (List Json.Piece × Value)) : Option (List (List Char × Value)) :=
  members.mapM fun m => (textOf? m.1).map (·, m.2)

/-- The field of the given key: missing, or read from the only value of that key. -/
def field? {α : Type} (read : Value → Option α) (key : String)
    (members : List (List Char × Value)) : Option (Option α) :=
  match members.filter (·.1 = key.toList) with
  | [] => some none
  | [m] => m.2.orNull? read
  | _ => none

/-- The request that a JSON value spells. -/
def ofValue? : Value → Option Request
  | .object members => do
    let members ← keyed? members
    return {
      operation := ← field? Value.text? "operation" members
      numbers := ← field? (Value.listOf? Value.float?) "numbers" members
      matrixA := ← field? Value.grid? "matrixA" members
      matrixB := ← field? Value.grid? "matrixB" members
      expression := ← field? Value.text? "expression" members }
  | .array [operation, numbers, matrixA, matrixB, expression] =>
    return {
      operation := ← operation.orNull? Value.text?
      numbers := ← numbers.orNull? (Value.listOf? Value.float?)
      matrixA := ← matrixA.orNull? Value.grid?
      matrixB := ← matrixB.orNull? Value.grid?
      expression := ← expression.orNull? Value.text? }
  | _ => none

/-- The request that a text spells. -/
def read (s : String) : Except CalcError Request :=
  match Value.read? s.toList >>= ofValue? with
  | some q => .ok q
  | none => .error (.request .invalidJson)

/-- The request of a file, whose bytes must be UTF-8. A file that cannot be read has no bytes. -/
def ofFile (contents : Option ByteArray) : Except CalcError Request :=
  match contents.bind String.fromUTF8? with
  | some s => read s
  | none => .error (.request .unreadable)

end Request

end PostfixCalc
