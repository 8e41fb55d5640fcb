import PostfixCalc.Window

/-!
# Frames of the window

A user event is handled in one frame. A frame passes the event through four
stages in the order in which the window is laid out: the escape key, the choice
of mode, the inputs of the mode, and the buttons below them. A button that the
mode does not show cannot be clicked.

The expression is evaluated on the enter key only in a frame that gives it the
keyboard: the field gives the keyboard up on that key before it is looked at.

Results:
* `ofLabel?_label`: a button is found by its label.
-/

namespace PostfixCalc

/-! ## Keys and buttons -/

/-- The keys for parentheses and operators. -/
inductive OperatorKey where
  | lpar
  | rpar
  | plus
  | minus
  | times
  | divided
deriving DecidableEq, Repr

/-- The character of an operator key. -/
def OperatorKey.symbol : OperatorKey → Char
  | lpar => '('
  | rpar => ')'
  | plus => '+'
  | minus => '-'
  | times => '*'
  | divided => '/'

/-- The keys for the characters of a number. -/
inductive FigureKey where
  | digit (d : Fin 10)
  | point
  | exponent
deriving DecidableEq, Repr

/-- The character of a figure key. -/
def FigureKey.symbol : FigureKey → Char
  | digit d => Nat.digitChar d
  | point => '.'
  | exponent => 'e'

/-- A key of the keypad under the expression. -/
inductive Key where
  | operator (key : OperatorKey)
  | figure (key : FigureKey)
deriving DecidableEq, Repr

/-- The character on a key. -/
def Key.symbol : Key → Char
  | operator key => key.symbol
  | figure key => key.symbol

/-- The keys of the keypad. -/
def Key.all : List Key :=
  [.lpar, .rpar, .plus, .minus, .times, .divided].map operator ++
    ((List.finRange 10).map FigureKey.digit ++ [FigureKey.point, .exponent]).map figure

/-- A button of the window. -/
inductive Button where
  | mode (mode : Mode)
  | key (key : Key)
  /-- The choice of an operation on matrices. -/
  | gridOperation (operation : GridOperation)
  | clearInputs
  | clearOutputs
  | reset
  | evaluate
  /-- Unfolds the steps of the computation. -/
  | showWorking
deriving DecidableEq, Repr

namespace Button

/-- The label of a button. -/
def label : Button → String
  | .mode m => m.label
  | .key k => String.singleton k.symbol
  | .gridOperation .add => "A + B"
  | .gridOperation .multiply => "A × B"
  | .clearInputs => "C"
  | .clearOutputs => "CLR"
  | .reset => "AC"
  | .evaluate => "="
  | .showWorking => "Démarche"

/-- All buttons. -/
def all : List Button :=
  [.expression, .reduce, .matrices].map mode ++ Key.all.map key ++
    [gridOperation .add, gridOperation .multiply, clearInputs, clearOutputs, reset, evaluate,
      showWorking]

/-- The button of a label. -/
def ofLabel? (text : String) : Option Button :=
  all.find? (·.label = text)

/-- Whether a mode shows a button. -/
def isShown (m : Mode) : Button → Bool
  | .key _ | .showWorking => m == .expression
  | .gridOperation _ => m == .matrices
  | .mode _ | .clearInputs | .clearOutputs | .reset | .evaluate => true

end Button

/-! ## Events -/

/-- What the user does in one frame. -/
inductive Event where
  /-- Nothing. -/
  | idle
  | enter
  | escape
  | click (button : Button)
  /-- Picks an operation on numbers from the list of aliases. -/
  | pick (key : String)
deriving DecidableEq, Repr

/-- Whether a mode shows what the event touches. -/
def Event.isShown (m : Mode) : Event → Bool
  | idle | enter | escape => true
  | click button => button.isShown m
  | pick key => m == .reduce && Registry.standard.aliases.contains key

/-! ## Stages of a frame -/

namespace Window

/-- The entry after an operator key: spaces at its end give way to one space on
    each side of the symbol, none in front of the first. -/
def insertOperator (entry : List Char) (symbol : Char) : List Char :=
  let kept := Text.dropWhileEnd (· == ' ') entry
  (if kept.isEmpty then [] else kept ++ [' ']) ++ [symbol, ' ']

/-- The entry after a key. -/
def insertKey (entry : String) : Key → String
  | .operator key => String.ofList (insertOperator entry.toList key.symbol)
  | .figure key => entry.push key.symbol

/-- The symbol that stands for an operation on matrices. -/
def gridSymbol : GridOperation → String
  | .add => "+"
  | .multiply => "*"

/-- The escape key empties the inputs. -/
def onEscape (w : Window) : Event → Window
  | .escape => w.clearInputs
  | _ => w

/-- The choice of a mode. -/
def onMode (w : Window) : Event → Window
  | .click (.mode mode) => w.setMode mode
  | _ => w

/-- The field of the expression: it takes the keyboard if the window wants it
    to, and only then evaluates on the enter key. -/
def onEntry (w : Window) (e : Event) : Window :=
  let focused := { w with wantsFocus := false }
  if w.wantsFocus && e == .enter then focused.evaluate else focused

/-- The keypad writes at the end of the expression. -/
def onKeypad (w : Window) : Event → Window
  | .click (.key key) => { w with entry := insertKey w.entry key, wantsFocus := true }
  | _ => w

/-- The list of operations on numbers. -/
def onOperator (w : Window) : Event → Window
  | .pick key => { w with operator := key }
  | _ => w

/-- The choice of an operation on matrices. -/
def onGridOperator (w : Window) : Event → Window
  | .click (.gridOperation operation) => { w with gridOperator := gridSymbol operation }
  | _ => w

/-- The inputs of the current mode. -/
def onInputs (w : Window) (e : Event) : Window :=
  match w.mode with
  | .expression => (w.onEntry e).onKeypad e
  | .reduce => w.onOperator e
  | .matrices => w.onGridOperator e

/-- The buttons that every mode has. -/
def onActions (w : Window) : Event → Window
  | .click .clearInputs => w.clearInputs
  | .click .clearOutputs => w.clearOutputs
  | .click .reset => w.reset
  | .click .evaluate => w.evaluate
  | _ => w

/-- The state after a frame with one event, all of whose stages are run. -/
def frame (w : Window) (e : Event) : Window :=
  (((w.onEscape e).onMode e).onInputs e).onActions e

/-- The state after a frame, if the event touches something that is shown. -/
def frame? (w : Window) (e : Event) : Option Window :=
  if e.isShown w.mode then some (w.frame e) else none

end Window

/-! ## Labels -/

/-- A button is found by its label, as no two have the same. -/
theorem Button.ofLabel?_label (b : Button) : ofLabel? b.label = some b := by
  rcases b with (_ | _ | _) | ((_ | _ | _ | _ | _ | _) | (d | _ | _)) | (_ | _) | _ | _ | _ | _ | _
  all_goals try decide
  revert d
  decide

end PostfixCalc
