import PostfixCalc.Job

/-!
# The window

The state of the calculator's window and the actions on it. There are three
modes, each with inputs of its own that stay when the mode changes. The outputs
belong to the current mode: a result, an error and, for an expression, the steps
of its computation. After an error the last result stays.

Results:
* `setMode_self`: choosing the current mode changes nothing.
* `evaluate_of_ok`, `evaluate_of_error`: what an evaluation leaves behind.
-/

namespace PostfixCalc

/-- What the window computes. -/
inductive Mode where
  | expression
  | reduce
  | matrices
deriving DecidableEq, Repr

/-- The label of the button that chooses a mode. -/
def Mode.label : Mode → String
  | expression => "Expression"
  | reduce => "Opérations de base"
  | matrices => "Matrices"

/-- The state of the window. -/
structure Window where
  mode : Mode
  /-- The expression as typed. -/
  entry : String
  /-- The alias of the operation on numbers. -/
  operator : String
  /-- The numbers as typed. -/
  operands : String
  /-- The symbol of the operation on matrices. -/
  gridOperator : String
  gridA : String
  gridB : String
  result : String
  error : String
  working : Working
  /-- Whether the next frame gives the keyboard to the expression. -/
  wantsFocus : Bool
deriving DecidableEq, Repr

namespace Window

/-- A window just opened. -/
def initial : Window where
  mode := .expression
  entry := ""
  operator := "+"
  operands := ""
  gridOperator := "+"
  gridA := ""
  gridB := ""
  result := ""
  error := ""
  working := .none
  wantsFocus := true

/-! ## Actions -/

/-- Forgets all but the mode. -/
def reset (w : Window) : Window :=
  { initial with mode := w.mode }

/-- Empties the inputs of the current mode, except its operation. -/
def clearInputs (w : Window) : Window :=
  match w.mode with
  | .expression => { w with entry := "", wantsFocus := true }
  | .reduce => { w with operands := "", wantsFocus := true }
  | .matrices => { w with gridA := "", gridB := "", wantsFocus := true }

/-- Empties the outputs. -/
def clearOutputs (w : Window) : Window :=
  { w with result := "", error := "", working := .none, wantsFocus := true }

/-- Changes the mode. The outputs of another mode are gone. -/
def setMode (w : Window) (mode : Mode) : Window :=
  if w.mode = mode then w else { w with mode := mode }.clearOutputs

/-- Shows an error and keeps the last result. -/
def setError (w : Window) (message : String) : Window :=
  { w with error := message, working := .none, wantsFocus := true }

/-- Shows a result. -/
def setResult (w : Window) (text : String) (working : Working) : Window :=
  { w with error := "", result := text, working := working, wantsFocus := true }

theorem setMode_self (w : Window) : w.setMode w.mode = w := by
  simp [setMode]

/-! ## Evaluation -/

/-- The value of the expression typed, apart from white space around it. -/
def entryOutcome (w : Window) : Except CalcError (String × Working) := do
  let text := String.ofList (Text.trim w.entry.toList)
  if text = "" then throw (.request .noExpression)
  let (value, working) ← Expression.explain .standard text
  return (Scalar.text value, working)

/-- The job of the operation on numbers that is typed. -/
def reduceJob (w : Window) : Except CalcError Job :=
  return .reduce w.operator (← readNumbers w.operands)

/-- The job of the operation on matrices that is typed. -/
def combineJob (w : Window) : Except CalcError Job :=
  return .combine w.gridOperator (← Grid.read w.gridA) (← Grid.read w.gridB)

/-- The result of a job as it is shown, which has no steps. -/
def jobOutcome (job : Except CalcError Job) : Except CalcError (String × Working) := do
  let answer ← (← job).run
  return (answer.text, .none)

/-- What the inputs of the current mode give. -/
def outcome (w : Window) : Except CalcError (String × Working) :=
  match w.mode with
  | .expression => w.entryOutcome
  | .reduce => jobOutcome w.reduceJob
  | .matrices => jobOutcome w.combineJob

/-- Evaluates the inputs of the current mode and shows the result or the error. -/
def evaluate (w : Window) : Window :=
  match w.outcome with
  | .ok (text, working) => w.setResult text working
  | .error e => w.setError e.message

theorem evaluate_of_ok {w : Window} {text : String} {working : Working}
    (h : w.outcome = .ok (text, working)) : w.evaluate = w.setResult text working := by
  rw [evaluate, h]

theorem evaluate_of_error {w : Window} {e : CalcError} (h : w.outcome = .error e) :
    w.evaluate = w.setError e.message := by
  rw [evaluate, h]

end Window

end PostfixCalc
