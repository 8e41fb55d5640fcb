import PostfixCalc.Error
import PostfixCalc.Scalar
import PostfixCalc.Text.Blank

/-!
# Numbers and grids as text

A list of numbers is typed with white space between them, a grid with one row on
each line. Lines of white space alone are skipped, and all other lines must have
as many numbers as the first.

Results:
* `readWords_map`: words that spell numbers are read one by one.
* `readRows_cons_of_error`, `readRows_cons_of_ok`: a row is read before its
  width is checked.
-/

namespace PostfixCalc

/-- The numbers that a list of words spells. -/
def readWords : List (List Char) → Except CalcError (List Float)
  | [] => .ok []
  | word :: rest =>
    match Scalar.readChars? word with
    | some x => (readWords rest).map (x :: ·)
    | none => .error (.request (.invalidNumber (String.ofList word)))

/-- Words that spell numbers are read one by one. -/
theorem readWords_map {α : Type} {spell : α → List Char} {value : α → Float}
    (h : ∀ a, Scalar.readChars? (spell a) = some (value a)) (l : List α) :
    readWords (l.map spell) = .ok (l.map value) := by
  induction l with
  | nil => rfl
  | cons a l ih => simp [readWords, h a, ih, Except.map]

/-- The numbers of a text, with white space between them. -/
def readNumbers (s : String) : Except CalcError (List Float) :=
  readWords (Text.words s.toList)

namespace Grid

/-- The lines of a text that have words, each as its words. -/
def wordRows (cs : List Char) : List (List (List Char)) :=
  ((Text.lines cs).map Text.words).filter (!·.isEmpty)

/-- The rows from row `number` on, each of `width` numbers; the first row has no width to meet. -/
def readRows (width : Option Nat) (number : Nat) :
    List (List (List Char)) → Except CalcError Grid
  | [] => .ok []
  | row :: rest => do
    let numbers ← readWords row
    let expected := width.getD numbers.length
    if numbers.length = expected then
      (readRows (some expected) (number + 1) rest).map (numbers :: ·)
    else throw (.shape (.ragged number expected numbers.length))

/-- The grid that a text spells, one row on each line. -/
def read (s : String) : Except CalcError Grid :=
  readRows none 1 (wordRows s.toList)

theorem readRows_nil (width : Option Nat) (number : Nat) : readRows width number [] = .ok [] := rfl

/-- A row that spells no numbers is an error whatever its width. -/
theorem readRows_cons_of_error {width : Option Nat} {number : Nat} {row : List (List Char)}
    {rest : List (List (List Char))} {e : CalcError} (h : readWords row = .error e) :
    readRows width number (row :: rest) = .error e := by
  rw [readRows, h]
  rfl

/-- A row of numbers is kept if it has the width asked for. -/
theorem readRows_cons_of_ok {width : Option Nat} {number : Nat} {row : List (List Char)}
    {rest : List (List (List Char))} {numbers : List Float} (h : readWords row = .ok numbers) :
    readRows width number (row :: rest) =
      if numbers.length = width.getD numbers.length then
        (readRows (some (width.getD numbers.length)) (number + 1) rest).map (numbers :: ·)
      else .error (.shape (.ragged number (width.getD numbers.length) numbers.length)) := by
  rw [readRows, h]
  rfl

/-- How a grid is shown: a space between the cells of a row, and each row on a line. -/
def text (g : Grid) : String :=
  "\n".intercalate (g.map fun row => " ".intercalate (row.map Scalar.text))

end Grid

end PostfixCalc
