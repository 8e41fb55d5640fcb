import Mathlib.Tactic
import PostfixCalc.Window.Frame

/-!
# The actions of a run

A frame passes an event through its stages. What comes of it are a few actions
in a row, each a single change of the state: the expression takes the keyboard
and is evaluated, say. So a run of the window is a sequence of actions, and its
history is the list of them, each with the state that it found. What every
action keeps, every run keeps.

Results:
* `Window.frame_eq_foldl`: a frame does its actions and nothing else.
* `Window.run_eq_foldl`: so does a run.
* `Window.invariant_run`: a relation of history and state that every action
  keeps is kept by every run.
-/

namespace PostfixCalc

/-! ## Runs -/

/-- The text fields. -/
inductive Field where
  | entry
  | operands
  | gridA
  | gridB
deriving DecidableEq, Repr

/-- What the user does. -/
inductive Input where
  /-- An event, which is handled in a frame. -/
  | event (event : Event)
  /-- Puts a text into a field. -/
  | type (field : Field) (text : String)

namespace Window

/-- The state with a text in a field. -/
def type (w : Window) (text : String) : Field → Window
  | .entry => { w with entry := text }
  | .operands => { w with operands := text }
  | .gridA => { w with gridA := text }
  | .gridB => { w with gridB := text }

/-- The state after an input. An event on what is not shown changes nothing. -/
def step (w : Window) : Input → Window
  | .event e => (w.frame? e).getD w
  | .type field text => w.type text field

/-- The state after many inputs. -/
def run (w : Window) (inputs : List Input) : Window :=
  inputs.foldl step w

end Window

/-! ## Actions -/

/-- A single change of the state. -/
inductive Action where
  /-- Gives the keyboard to the expression. -/
  | focus
  | clearInputs
  | clearOutputs
  | reset
  | evaluate
  | setMode (mode : Mode)
  | press (k : Key)
  | chooseOperator (key : String)
  | chooseGridOperator (operation : GridOperation)
  | type (field : Field) (text : String)

namespace Window

/-- The state after an action. -/
def perform (w : Window) : Action → Window
  | .focus => { w with wantsFocus := false }
  | .clearInputs => w.clearInputs
  | .clearOutputs => w.clearOutputs
  | .reset => w.reset
  | .evaluate => w.evaluate
  | .setMode mode => w.setMode mode
  | .press k => { w with entry := insertKey w.entry k, wantsFocus := true }
  | .chooseOperator key => { w with operator := key }
  | .chooseGridOperator operation => { w with gridOperator := gridSymbol operation }
  | .type field text => w.type text field

end Window

/-! ## The actions of a frame -/

/-- What an event does before the inputs of the mode are reached. -/
def Event.openingActions : Event → List Action
  | .escape => [.clearInputs]
  | .click (.mode mode) => [.setMode mode]
  | _ => []

/-- What an event does to the inputs of the mode: the expression always takes
    the keyboard, and evaluates on the enter key if it was to take it. -/
def Window.inputActions (w : Window) (e : Event) : List Action :=
  match w.mode, e with
  | .expression, .enter => .focus :: if w.wantsFocus then [.evaluate] else []
  | .expression, .click (.key k) => [.focus, .press k]
  | .expression, _ => [.focus]
  | .reduce, .pick key => [.chooseOperator key]
  | .matrices, .click (.gridOperation operation) => [.chooseGridOperator operation]
  | _, _ => []

/-- What an event does to the buttons that every mode has. -/
def Event.buttonActions : Event → List Action
  | .click .clearInputs => [.clearInputs]
  | .click .clearOutputs => [.clearOutputs]
  | .click .reset => [.reset]
  | .click .evaluate => [.evaluate]
  | _ => []

namespace Window

/-- The actions of a frame. -/
def frameActions (w : Window) (e : Event) : List Action :=
  e.openingActions ++ (e.openingActions.foldl perform w).inputActions e ++ e.buttonActions

theorem onMode_onEscape (w : Window) (e : Event) :
    (w.onEscape e).onMode e = e.openingActions.foldl perform w := by
  cases e with
  | click button => cases button <;> rfl
  | idle | enter | escape | pick key => rfl

theorem onInputs_eq_foldl (w : Window) (e : Event) :
    w.onInputs e = (w.inputActions e).foldl perform w := by
  unfold onInputs inputActions
  cases w.mode with
  | expression =>
    cases e with
    | enter => cases h : w.wantsFocus <;> simp [onEntry, onKeypad, perform, h]
    | click button => cases button <;> simp [onEntry, onKeypad, perform]
    | idle | escape | pick key => simp [onEntry, onKeypad, perform]
  | reduce => cases e <;> rfl
  | matrices =>
    cases e with
    | click button => cases button <;> rfl
    | idle | enter | escape | pick key => rfl

theorem onActions_eq_foldl (w : Window) (e : Event) :
    w.onActions e = e.buttonActions.foldl perform w := by
  cases e with
  | click button => cases button <;> rfl
  | idle | enter | escape | pick key => rfl

/-- A frame does its actions and nothing else. -/
theorem frame_eq_foldl (w : Window) (e : Event) :
    w.frame e = (w.frameActions e).foldl perform w := by
  rw [frame, onMode_onEscape, onInputs_eq_foldl, onActions_eq_foldl, frameActions,
    List.foldl_append, List.foldl_append]

/-! ## The history of a run -/

/-- The actions of an input. -/
def actions (w : Window) : Input → List Action
  | .event e => if e.isShown w.mode then w.frameActions e else []
  | .type field text => [.type field text]

/-- An input does its actions and nothing else. -/
theorem step_eq_foldl (w : Window) (i : Input) : w.step i = (w.actions i).foldl perform w := by
  cases i with
  | event e =>
    simp only [step, frame?, actions]
    split_ifs
    · exact w.frame_eq_foldl e
    · rfl
  | type field text => rfl

end Window

/-- An action and the state that it found. -/
structure Record where
  before : Window
  action : Action

namespace Window

/-- The records of actions in a row. -/
def records (w : Window) : List Action → List Record
  | [] => []
  | a :: rest => ⟨w, a⟩ :: (w.perform a).records rest

/-- All that happened in a run, in order. -/
def history (w : Window) : List Input → List Record
  | [] => []
  | i :: rest => w.records (w.actions i) ++ (w.step i).history rest

theorem map_action_records (w : Window) (as : List Action) :
    (w.records as).map Record.action = as := by
  induction as generalizing w with
  | nil => rfl
  | cons a as ih => rw [records, List.map_cons, ih]

/-- A run does the actions of its history and nothing else. -/
theorem run_eq_foldl (w : Window) (inputs : List Input) :
    w.run inputs = ((w.history inputs).map Record.action).foldl perform w := by
  induction inputs generalizing w with
  | nil => rfl
  | cons i inputs ih =>
    rw [history, List.map_append, List.foldl_append, map_action_records, ← step_eq_foldl]
    exact ih (w.step i)

variable {Inv : List Record → Window → Prop}

/-- What every action keeps is kept by actions in a row. -/
theorem invariant_foldl (hperform : ∀ past w a, Inv past w → Inv (past ++ [⟨w, a⟩]) (w.perform a))
    {past : List Record} {w : Window} (h : Inv past w) (as : List Action) :
    Inv (past ++ w.records as) (as.foldl perform w) := by
  induction as generalizing past w with
  | nil => simpa [records] using h
  | cons a as ih => simpa [records] using ih (hperform past w a h)

/-- What every action keeps is kept by every run. -/
theorem invariant_run (hperform : ∀ past w a, Inv past w → Inv (past ++ [⟨w, a⟩]) (w.perform a))
    {past : List Record} {w : Window} (h : Inv past w) (inputs : List Input) :
    Inv (past ++ w.history inputs) (w.run inputs) := by
  induction inputs generalizing past w with
  | nil => simpa [history, run] using h
  | cons i inputs ih =>
    have hstep := invariant_foldl hperform h (w.actions i)
    rw [← step_eq_foldl] at hstep
    simpa [history, run] using ih hstep

end Window

end PostfixCalc
