import PostfixCalc.Json.Token

/-!
# JSON values

A value is read from its tokens by a machine that keeps, for each array and
object that is open, the part that is read already. Nothing is lost on the way:
strings keep their pieces and numbers their numeral, so a value has exactly one
list of tokens, `Value.tokens`.
-/

namespace PostfixCalc.Json

/-- A value of the format. The members of an object are kept in order, repeated keys included. -/
inductive Value where
  | null
  | bool (value : Bool)
  | number (negative : Bool) (magnitude : Numeral)
  | string (pieces : List Piece)
  | array (elements : List Value)
  | object (members : List (List Piece × Value))

/-! ## The tokens of a value -/

/-- Lists with a comma between two of them, each followed by nothing else. -/
def joinComma : List (List Token) → List Token
  | [] => []
  | [ts] => ts
  | ts :: rest => ts ++ .comma :: joinComma rest

mutual

/-- The tokens that spell a value. -/
def Value.tokens : Value → List Token
  | .null => [.null]
  | .bool value => [.bool value]
  | .number negative magnitude => [.number negative magnitude]
  | .string pieces => [.string pieces]
  | .array elements => .openArray :: joinComma (elementTokens elements) ++ [.closeArray]
  | .object members => .openObject :: joinComma (memberTokens members) ++ [.closeObject]

/-- The tokens of each element. -/
def elementTokens : List Value → List (List Token)
  | [] => []
  | v :: rest => v.tokens :: elementTokens rest

/-- The tokens of each member: the key, a colon and the value. -/
def memberTokens : List (List Piece × Value) → List (List Token)
  | [] => []
  | (key, v) :: rest => (.string key :: .colon :: v.tokens) :: memberTokens rest

end

/-! ## Reading -/

/-- An array or object whose next value is being read: the earlier ones, latest
    first, and for an object the key of the next one. -/
inductive Frame where
  | array (before : List Value)
  | object (before : List (List Piece × Value)) (key : List Piece)

/-- What is read so far, and so what may follow. Frames stand innermost first. -/
inductive Reading where
  /-- A value must follow. -/
  | needValue (frames : List Frame)
  /-- An array has been opened. -/
  | firstElement (frames : List Frame)
  /-- An object has been opened. -/
  | firstKey (frames : List Frame)
  /-- A key must follow. -/
  | needKey (before : List (List Piece × Value)) (frames : List Frame)
  /-- A colon must follow the key. -/
  | needColon (before : List (List Piece × Value)) (key : List Piece) (frames : List Frame)
  /-- A value is complete. -/
  | complete (value : Value) (frames : List Frame)

namespace Reading

/-- The first token of a value. -/
def startValue (frames : List Frame) : Token → Option Reading
  | .null => some (complete .null frames)
  | .bool value => some (complete (.bool value) frames)
  | .number negative magnitude => some (complete (.number negative magnitude) frames)
  | .string pieces => some (complete (.string pieces) frames)
  | .openArray => some (firstElement frames)
  | .openObject => some (firstKey frames)
  | _ => none

/-- The token after a complete value. -/
def continueWith (v : Value) (frames : List Frame) (t : Token) : Option Reading :=
  match frames, t with
  | .array before :: outer, .comma => some (needValue (.array (v :: before) :: outer))
  | .array before :: outer, .closeArray => some (complete (.array (v :: before).reverse) outer)
  | .object before key :: outer, .comma => some (needKey ((key, v) :: before) outer)
  | .object before key :: outer, .closeObject =>
    some (complete (.object ((key, v) :: before).reverse) outer)
  | _, _ => none

/-- What is read after one more token. -/
def step : Reading → Token → Option Reading
  | needValue frames, t => startValue frames t
  | firstElement frames, .closeArray => some (complete (.array []) frames)
  | firstElement frames, t => startValue (.array [] :: frames) t
  | firstKey frames, .closeObject => some (complete (.object []) frames)
  | firstKey frames, .string pieces => some (needColon [] pieces frames)
  | needKey before frames, .string pieces => some (needColon before pieces frames)
  | needColon before key frames, .colon => some (needValue (.object before key :: frames))
  | complete v frames, t => continueWith v frames t
  | _, _ => none

end Reading

/-- The value that a list of tokens spells. -/
def Value.ofTokens? (tokens : List Token) : Option Value :=
  match tokens.foldlM Reading.step (.needValue []) with
  | some (.complete v []) => some v
  | _ => none

/-- The value that a text spells, with white space around any token. -/
def Value.read? (cs : List Char) : Option Value :=
  Token.ofChars? cs >>= Value.ofTokens?

end PostfixCalc.Json
