import PostfixCalc.Proofs.Outputs

/-!
# Who changes what

Each part of the state has a few actions that may change it, and each action has
a few inputs that may cause it. A change of the mode leaves all inputs where
they are, and an evaluation leaves all but the outputs. So the inputs of a mode
are what the events in this mode made of them, whatever was done in the others.

Results:
* `Record.part_perform`: an action leaves the parts that are not its own.
* `Window.causes_of_mem`: which input causes an action.
* `Window.part_step`: so an input leaves the parts that are not its own.
* `Window.parts_owned`: in a run, the inputs of a mode do not depend on what is
  done in the other modes.
-/

namespace PostfixCalc

/-! ## The parts of the state -/

/-- A part of the state. Whether the keyboard is wanted is left out. -/
inductive Part where
  | mode
  | field (f : Field)
  | operator
  | gridOperator
  /-- The result, the error and the steps. -/
  | outputs
deriving DecidableEq

/-- What a part holds. -/
def Part.Value : Part → Type
  | mode => Mode
  | field _ | operator | gridOperator => String
  | outputs => String × String × Working

/-- A part of a state. -/
def Window.part (w : Window) : (p : Part) → p.Value
  | .mode => w.mode
  | .field .entry => w.entry
  | .field .operands => w.operands
  | .field .gridA => w.gridA
  | .field .gridB => w.gridB
  | .operator => w.operator
  | .gridOperator => w.gridOperator
  | .outputs => (w.result, w.error, w.working)

/-- The mode that shows a text field. -/
def Field.mode : Field → Mode
  | .entry => .expression
  | .operands => .reduce
  | .gridA | .gridB => .matrices

/-! ## Actions -/

namespace Window

/-- An evaluation changes the outputs, and wants the keyboard back. -/
theorem exists_evaluate_eq (w : Window) : ∃ result error working,
    w.evaluate = { w with result, error, working, wantsFocus := true } := by
  cases h : w.outcome with
  | ok shown => exact ⟨_, _, _, evaluate_of_ok h⟩
  | error e => exact ⟨_, _, _, evaluate_of_error h⟩

theorem part_evaluate (w : Window) {p : Part} (h : p ≠ .outputs) :
    w.evaluate.part p = w.part p := by
  obtain ⟨_, _, _, heq⟩ := w.exists_evaluate_eq
  rw [heq]
  rcases p with _ | (_ | _ | _ | _) | _ | _ | _ <;> first | rfl | exact absurd rfl h

/-- A change of the mode clears the outputs. -/
theorem part_setMode (w : Window) (mode : Mode) {p : Part}
    (h : mode = w.mode ∨ p ≠ .mode ∧ p ≠ .outputs) : (w.setMode mode).part p = w.part p := by
  rw [setMode]
  split
  · rfl
  · next hne =>
    obtain ⟨hmode, houtputs⟩ := h.resolve_left (Ne.symm hne)
    rcases p with _ | (_ | _ | _ | _) | _ | _ | _ <;>
      first | rfl | exact absurd rfl hmode | exact absurd rfl houtputs

/-- Emptying the inputs empties the fields of the mode. -/
theorem part_clearInputs (w : Window) {p : Part} (h : ∀ f, p = .field f → f.mode ≠ w.mode) :
    w.clearInputs.part p = w.part p := by
  rw [clearInputs]
  split
  all_goals
    next hmode =>
      rcases p with _ | (_ | _ | _ | _) | _ | _ | _ <;>
        first | rfl | exact absurd hmode.symm (h _ rfl)

theorem part_type (w : Window) (f : Field) (text : String) {p : Part} (h : p ≠ .field f) :
    (w.type text f).part p = w.part p := by
  cases f <;> rcases p with _ | (_ | _ | _ | _) | _ | _ | _ <;> first | rfl | exact absurd rfl h

end Window

namespace Record

/-- The action of the record may change the part. -/
def MayChange (q : Record) : Part → Prop
  | .mode => ∃ mode ≠ q.before.mode, q.action = .setMode mode
  | .field f => q.action = .reset ∨ (∃ text, q.action = .type f text) ∨
      (q.before.mode = f.mode ∧ q.action = .clearInputs) ∨ f = .entry ∧ ∃ k, q.action = .press k
  | .operator => q.action = .reset ∨ ∃ key, q.action = .chooseOperator key
  | .gridOperator => q.action = .reset ∨ ∃ operation, q.action = .chooseGridOperator operation
  | .outputs => q.Clears ∨ q.Evaluates

/-- An action leaves the parts that are not its own. -/
theorem part_perform (q : Record) {p : Part} (h : ¬ q.MayChange p) :
    (q.before.perform q.action).part p = q.before.part p := by
  obtain ⟨w, a⟩ := q
  cases a with
  | focus => rcases p with _ | (_ | _ | _ | _) | _ | _ | _ <;> rfl
  | clearInputs =>
    refine w.part_clearInputs ?_
    rintro f rfl hmode
    exact h (.inr (.inr (.inl ⟨hmode.symm, rfl⟩)))
  | clearOutputs =>
    rcases p with _ | (_ | _ | _ | _) | _ | _ | _ <;>
      first | rfl | exact absurd (.inl (.inl rfl)) h
  | reset =>
    cases p with
    | mode => rfl
    | outputs => exact absurd (.inl (.inr (.inl rfl))) h
    | field | operator | gridOperator => exact absurd (.inl rfl) h
  | evaluate =>
    refine w.part_evaluate ?_
    rintro rfl
    exact h (.inr rfl)
  | setMode mode =>
    refine w.part_setMode mode ?_
    by_cases hmode : mode = w.mode
    · exact .inl hmode
    · refine .inr ⟨?_, ?_⟩
      · rintro rfl
        exact h ⟨mode, hmode, rfl⟩
      · rintro rfl
        exact h (.inl (.inr (.inr ⟨mode, hmode, rfl⟩)))
  | press k =>
    rcases p with _ | (_ | _ | _ | _) | _ | _ | _ <;>
      first | rfl | exact absurd (.inr (.inr (.inr ⟨rfl, k, rfl⟩))) h
  | chooseOperator key =>
    rcases p with _ | (_ | _ | _ | _) | _ | _ | _ <;> first | rfl | exact absurd (.inr ⟨key, rfl⟩) h
  | chooseGridOperator operation =>
    rcases p with _ | (_ | _ | _ | _) | _ | _ | _ <;>
      first | rfl | exact absurd (.inr ⟨operation, rfl⟩) h
  | type f text =>
    refine w.part_type f text ?_
    rintro rfl
    exact h (.inr (.inl ⟨text, rfl⟩))

end Record

/-- A part is left by actions in a row if each of them leaves it. -/
theorem Window.part_foldl {w : Window} {as : List Action} {p : Part}
    (h : ∀ q ∈ w.records as, ¬ q.MayChange p) : (as.foldl perform w).part p = w.part p := by
  induction as generalizing w with
  | nil => rfl
  | cons a as ih =>
    rw [List.foldl_cons, ih fun q hq => h q (List.mem_cons_of_mem _ hq)]
    exact Record.part_perform ⟨w, a⟩ (h _ (List.mem_cons_self ..))

/-! ## Inputs -/

namespace Window

/-- The input causes the action of the record. The inputs are emptied, and the
    mode is changed, while the mode is still that of `w`. -/
inductive Causes (w : Window) : Input → Record → Prop
  | focus {e : Event} {v : Window} : Causes w (.event e) ⟨v, .focus⟩
  | escape {v : Window} : v.mode = w.mode → Causes w (.event .escape) ⟨v, .clearInputs⟩
  | clearInputs {v : Window} : v.mode = w.mode →
      Causes w (.event (.click .clearInputs)) ⟨v, .clearInputs⟩
  | clearOutputs {v : Window} : Causes w (.event (.click .clearOutputs)) ⟨v, .clearOutputs⟩
  | reset {v : Window} : Causes w (.event (.click .reset)) ⟨v, .reset⟩
  | enter {v : Window} : w.mode = .expression → w.wantsFocus = true →
      Causes w (.event .enter) ⟨v, .evaluate⟩
  | evaluate {v : Window} : Causes w (.event (.click .evaluate)) ⟨v, .evaluate⟩
  | mode {v : Window} {mode : Mode} : v.mode = w.mode →
      Causes w (.event (.click (.mode mode))) ⟨v, .setMode mode⟩
  | key {v : Window} {k : Key} : w.mode = .expression →
      Causes w (.event (.click (.key k))) ⟨v, .press k⟩
  | pick {v : Window} {key : String} : w.mode = .reduce → key ∈ Registry.standard.aliases →
      Causes w (.event (.pick key)) ⟨v, .chooseOperator key⟩
  | gridOperation {v : Window} {operation : GridOperation} : w.mode = .matrices →
      Causes w (.event (.click (.gridOperation operation))) ⟨v, .chooseGridOperator operation⟩
  | type {v : Window} {f : Field} {text : String} : Causes w (.type f text) ⟨v, .type f text⟩

theorem mem_inputActions {w : Window} {e : Event} {a : Action} (h : a ∈ w.inputActions e) :
    a = .focus ∨
    (w.mode = .expression ∧ w.wantsFocus = true ∧ e = .enter ∧ a = .evaluate) ∨
    (w.mode = .expression ∧ ∃ k, e = .click (.key k) ∧ a = .press k) ∨
    (w.mode = .reduce ∧ ∃ key, e = .pick key ∧ a = .chooseOperator key) ∨
    (w.mode = .matrices ∧ ∃ operation, e = .click (.gridOperation operation) ∧
      a = .chooseGridOperator operation) := by
  unfold inputActions at h
  split at h
  case h_1 _ _ hmode =>
    rcases List.mem_cons.mp h with rfl | h
    · exact .inl rfl
    · split at h
      · next hfocus => exact .inr (.inl ⟨hmode, hfocus, rfl, List.mem_singleton.mp h⟩)
      · cases h
  case h_2 _ _ k hmode =>
    rcases List.mem_cons.mp h with rfl | h
    · exact .inl rfl
    · exact .inr (.inr (.inl ⟨hmode, k, rfl, List.mem_singleton.mp h⟩))
  case h_3 => exact .inl (List.mem_singleton.mp h)
  case h_4 _ _ key hmode => exact .inr (.inr (.inr (.inl ⟨hmode, key, rfl, List.mem_singleton.mp h⟩)))
  case h_5 _ _ operation hmode =>
    exact .inr (.inr (.inr (.inr ⟨hmode, operation, rfl, List.mem_singleton.mp h⟩)))
  case h_6 => cases h

theorem records_append (w : Window) (as bs : List Action) :
    w.records (as ++ bs) = w.records as ++ (as.foldl perform w).records bs := by
  induction as generalizing w with
  | nil => rfl
  | cons a as ih => simp [records, ih]

theorem action_mem {w : Window} {as : List Action} {q : Record} (h : q ∈ w.records as) :
    q.action ∈ as := by
  rw [← map_action_records w as]
  exact List.mem_map_of_mem h

/-- The inputs of the mode leave the mode as it is. -/
theorem mode_inputActions (w : Window) (e : Event) :
    ((w.inputActions e).foldl perform w).mode = w.mode := by
  have hleave : ∀ q ∈ w.records (w.inputActions e), ¬ q.MayChange .mode := by
    rintro q hq ⟨mode, -, haction⟩
    have hmem := action_mem hq
    rw [haction] at hmem
    simpa using mem_inputActions hmem
  exact part_foldl hleave

/-- The actions of an input are caused by it. -/
theorem causes_of_mem {w : Window} {i : Input} {q : Record} (h : q ∈ w.records (w.actions i)) :
    w.Causes i q := by
  cases i with
  | type f text =>
    obtain rfl := List.mem_singleton.mp h
    exact .type
  | event e =>
    rw [actions] at h
    split at h
    case isFalse => cases h
    case isTrue hshown =>
    rw [frameActions, records_append, records_append, List.mem_append, List.mem_append] at h
    obtain ⟨v, a⟩ := q
    rcases h with (hopening | hinput) | hbutton
    · cases e with
      | escape =>
        obtain ⟨rfl, rfl⟩ := Record.mk.inj (List.mem_singleton.mp hopening)
        exact .escape rfl
      | click button =>
        cases button with
        | mode mode =>
          obtain ⟨rfl, rfl⟩ := Record.mk.inj (List.mem_singleton.mp hopening)
          exact .mode rfl
        | _ => cases hopening
      | _ => cases hopening
    · rcases mem_inputActions (action_mem hinput) with rfl | ⟨hmode, hfocus, rfl, rfl⟩ |
        ⟨hmode, k, rfl, rfl⟩ | ⟨hmode, key, rfl, rfl⟩ | ⟨hmode, operation, rfl, rfl⟩
      · exact .focus
      · exact .enter hmode hfocus
      · exact .key hmode
      · have hkey : w.mode = .reduce ∧ key ∈ Registry.standard.aliases := by
          simpa [Event.isShown] using hshown
        exact .pick hmode hkey.2
      · exact .gridOperation hmode
    · cases e with
      | click button =>
        cases button with
        | clearInputs =>
          obtain ⟨rfl, rfl⟩ := Record.mk.inj (List.mem_singleton.mp hbutton)
          exact .clearInputs (w.mode_inputActions _)
        | clearOutputs =>
          obtain ⟨rfl, rfl⟩ := Record.mk.inj (List.mem_singleton.mp hbutton)
          exact .clearOutputs
        | reset =>
          obtain ⟨rfl, rfl⟩ := Record.mk.inj (List.mem_singleton.mp hbutton)
          exact .reset
        | evaluate =>
          obtain ⟨rfl, rfl⟩ := Record.mk.inj (List.mem_singleton.mp hbutton)
          exact .evaluate
        | _ => cases hbutton
      | _ => cases hbutton

/-- The input may change the part. -/
def MayChange (w : Window) (i : Input) : Part → Prop
  | .mode => ∃ mode ≠ w.mode, i = .event (.click (.mode mode))
  | .field f => i = .event (.click .reset) ∨ (∃ text, i = .type f text) ∨
      (w.mode = f.mode ∧ (i = .event .escape ∨ i = .event (.click .clearInputs))) ∨
      (f = .entry ∧ w.mode = .expression ∧ ∃ k, i = .event (.click (.key k)))
  | .operator => i = .event (.click .reset) ∨
      (w.mode = .reduce ∧ ∃ key ∈ Registry.standard.aliases, i = .event (.pick key))
  | .gridOperator => i = .event (.click .reset) ∨
      (w.mode = .matrices ∧ ∃ operation, i = .event (.click (.gridOperation operation)))
  | .outputs => i = .event (.click .reset) ∨ i = .event (.click .clearOutputs) ∨
      (∃ mode ≠ w.mode, i = .event (.click (.mode mode))) ∨ i = .event (.click .evaluate) ∨
      (i = .event .enter ∧ w.mode = .expression ∧ w.wantsFocus = true)

/-- An input that causes an action may change what the action may change. -/
theorem Causes.mayChange {w : Window} {i : Input} {q : Record} (h : w.Causes i q) {p : Part}
    (hq : q.MayChange p) : w.MayChange i p := by
  cases h <;> cases p <;> simp_all [Record.MayChange, MayChange, Record.Clears, Record.Evaluates]

/-- An input leaves the parts that are not its own. -/
theorem part_step (w : Window) (i : Input) {p : Part} (h : ¬ w.MayChange i p) :
    (w.step i).part p = w.part p := by
  rw [step_eq_foldl]
  exact part_foldl fun q hq hmay => h ((causes_of_mem hq).mayChange hmay)

/-! ## Two states that agree -/

section

variable {w u : Window} {p : Part}

theorem mode_setMode (w : Window) (mode : Mode) : (w.setMode mode).mode = mode := by
  rw [setMode]
  split
  · next heq => exact heq
  · rfl

theorem field_clearInputs {f : Field} (h : w.mode = f.mode) :
    w.clearInputs.part (.field f) = "" := by
  rw [clearInputs, h]
  cases f <;> rfl

/-- What an action makes of a part depends on the mode and the part only, unless
    the part is the outputs. -/
theorem part_perform_congr (hmode : w.mode = u.mode) (hpart : w.part p = u.part p)
    (hp : p ≠ .outputs) (a : Action) : (w.perform a).part p = (u.perform a).part p := by
  by_cases hmay : Record.MayChange ⟨w, a⟩ p
  · cases p with
    | mode =>
      obtain ⟨mode, -, rfl⟩ := hmay
      exact (w.mode_setMode mode).trans (u.mode_setMode mode).symm
    | field f =>
      rcases hmay with rfl | ⟨text, rfl⟩ | ⟨hf, rfl⟩ | ⟨rfl, k, rfl⟩
      · cases f <;> rfl
      · cases f <;> rfl
      · exact (field_clearInputs hf).trans (field_clearInputs (hmode ▸ hf)).symm
      · exact congrArg (insertKey · k) hpart
    | operator => rcases hmay with rfl | ⟨key, rfl⟩ <;> rfl
    | gridOperator => rcases hmay with rfl | ⟨operation, rfl⟩ <;> rfl
    | outputs => exact absurd rfl hp
  · have hmay' : ¬ Record.MayChange ⟨u, a⟩ p := by
      cases p with
      | outputs => exact absurd rfl hp
      | _ => simpa only [Record.MayChange, hmode] using hmay
    rw [Record.part_perform ⟨w, a⟩ hmay, Record.part_perform ⟨u, a⟩ hmay', hpart]

/-- So does what actions in a row make of it. -/
theorem part_foldl_congr (hmode : w.mode = u.mode) (hpart : w.part p = u.part p)
    (hp : p ≠ .outputs) (as : List Action) :
    (as.foldl perform w).part p = (as.foldl perform u).part p := by
  induction as generalizing w u with
  | nil => exact hpart
  | cons a as ih =>
    have hmode' : w.part .mode = u.part .mode := hmode
    exact ih (part_perform_congr hmode hmode' (by decide) a) (part_perform_congr hmode hpart hp a)

theorem inputActions_congr (hmode : w.mode = u.mode) {e : Event} (he : e ≠ .enter) :
    w.inputActions e = u.inputActions e := by
  unfold inputActions
  rw [hmode]
  generalize u.mode = mode
  cases e with
  | enter => exact absurd rfl he
  | click button => cases mode <;> cases button <;> rfl
  | idle | escape | pick key => cases mode <;> rfl

/-- The actions of an event depend on the mode only, unless it is the enter key. -/
theorem frameActions_congr (hmode : w.mode = u.mode) {e : Event} (he : e ≠ .enter) :
    w.frameActions e = u.frameActions e := by
  have hmode' : w.part .mode = u.part .mode := hmode
  have hopening : (e.openingActions.foldl perform w).mode = (e.openingActions.foldl perform u).mode :=
    part_foldl_congr hmode hmode' (by decide) e.openingActions
  rw [frameActions, frameActions, inputActions_congr hopening he]

/-- And what an input makes of it. -/
theorem part_step_congr (hmode : w.mode = u.mode) (hpart : w.part p = u.part p)
    (hp : p ≠ .outputs) (i : Input) : (w.step i).part p = (u.step i).part p := by
  cases i with
  | type f text => exact part_perform_congr hmode hpart hp (.type f text)
  | event e =>
    by_cases henter : e = .enter
    · -- only an evaluation depends on more than the mode
      have hleave (v : Window) : ¬ v.MayChange (.event e) p := by
        subst henter
        cases p <;> simp_all [MayChange]
      rw [part_step w _ (hleave w), part_step u _ (hleave u), hpart]
    · have hactions : w.actions (.event e) = u.actions (.event e) := by
        rw [actions, actions, hmode, frameActions_congr hmode henter]
      rw [step_eq_foldl, step_eq_foldl, hactions]
      exact part_foldl_congr hmode hpart hp _

end

end Window

/-! ## The inputs of a mode -/

/-- The inputs of a mode. -/
def Mode.parts : Mode → List Part
  | .expression => [.field .entry]
  | .reduce => [.operator, .field .operands]
  | .matrices => [.gridOperator, .field .gridA, .field .gridB]

theorem Mode.mem_parts_iff {m : Mode} {p : Part} : p ∈ m.parts ↔
    (∃ f, p = .field f ∧ f.mode = m) ∨ (p = .operator ∧ m = .reduce) ∨
      (p = .gridOperator ∧ m = .matrices) := by
  cases m <;> rcases p with _ | (_ | _ | _ | _) | _ | _ | _ <;> simp [Mode.parts, Field.mode]

namespace Window

/-- The input is meant for the inputs of the mode: it is typed into one of its
    fields, or it is AC, or an event in this mode that does not leave it. -/
def isFor (w : Window) (m : Mode) : Input → Bool
  | .type f _ => f.mode == m
  | .event (.click .reset) => true
  | .event (.click (.mode _)) => false
  | .event _ => w.mode == m

/-- The inputs of a run that are meant for the inputs of the mode. -/
def inputsFor (w : Window) (m : Mode) : List Input → List Input
  | [] => []
  | i :: rest =>
    if w.isFor m i then i :: (w.step i).inputsFor m rest else (w.step i).inputsFor m rest

/-- All other inputs leave the inputs of the mode. -/
theorem part_step_of_isFor_eq_false {w : Window} {m : Mode} {i : Input} (h : w.isFor m i = false)
    {p : Part} (hp : p ∈ m.parts) : (w.step i).part p = w.part p := by
  refine w.part_step i fun hmay => ?_
  rcases Mode.mem_parts_iff.mp hp with ⟨f, rfl, rfl⟩ | ⟨rfl, rfl⟩ | ⟨rfl, rfl⟩
  · rcases hmay with rfl | ⟨text, rfl⟩ | ⟨hf, rfl | rfl⟩ | ⟨rfl, hf, k, rfl⟩
    · cases h
    · simp [isFor] at h
    · simp [isFor, hf] at h
    · simp [isFor, hf] at h
    · simp [isFor, hf, Field.mode] at h
  · rcases hmay with rfl | ⟨hmode, key, -, rfl⟩
    · cases h
    · simp [isFor, hmode] at h
  · rcases hmay with rfl | ⟨hmode, operation, rfl⟩
    · cases h
    · simp [isFor, hmode] at h

/-- Typing and AC do the same to the inputs of a mode in every mode. -/
theorem part_step_of_mode_ne {w u : Window} {m : Mode} {i : Input} (h : w.isFor m i = true)
    (hmode : w.mode ≠ m) {p : Part} (hp : p ≠ .mode) (hpart : w.part p = u.part p) :
    (w.step i).part p = (u.step i).part p := by
  cases i with
  | type f text =>
    by_cases hf : p = .field f
    · subst hf
      cases f <;> rfl
    · have hleave (v : Window) : (v.step (.type f text)).part p = v.part p := v.part_type f text hf
      rw [hleave, hleave, hpart]
  | event e =>
    have hreset : e = .click .reset := by
      unfold isFor at h
      split at h <;> simp_all
    have hinitial (v : Window) : (v.step (.event e)).part p = initial.part p := by
      subst hreset
      cases p with
      | mode => exact absurd rfl hp
      | field f => cases f <;> rfl
      | operator | gridOperator | outputs => rfl
    rw [hinitial, hinitial]

/-- An input that is meant for the inputs of the mode does to them what it does
    in this mode. -/
theorem part_step_of_isFor {w u : Window} {m : Mode} {i : Input} (h : w.isFor m i = true)
    (hu : u.mode = m) {p : Part} (hp : p ∈ m.parts) (hpart : w.part p = u.part p) :
    (w.step i).part p = (u.step i).part p := by
  have hne : p ≠ .mode ∧ p ≠ .outputs := by
    rcases Mode.mem_parts_iff.mp hp with ⟨f, rfl, -⟩ | ⟨rfl, -⟩ | ⟨rfl, -⟩ <;> simp
  by_cases hmode : w.mode = m
  · exact part_step_congr (hmode.trans hu.symm) hpart hne.2 i
  · exact part_step_of_mode_ne h hmode hne.1 hpart

/-- Nor does it leave the mode. -/
theorem mode_step_of_isFor {w u : Window} {m : Mode} {i : Input} (h : w.isFor m i = true) :
    (u.step i).mode = u.mode := by
  have hleave : ¬ u.MayChange i .mode := by
    rintro ⟨mode, -, rfl⟩
    cases h
  exact u.part_step i hleave

theorem part_run_inputsFor {m : Mode} (inputs : List Input) {w u : Window} (hu : u.mode = m)
    (h : ∀ p ∈ m.parts, w.part p = u.part p) :
    ∀ p ∈ m.parts, (w.run inputs).part p = (u.run (w.inputsFor m inputs)).part p := by
  -- the two states share the inputs of the mode all along, but only `u` stays in it
  induction inputs generalizing w u with
  | nil => exact h
  | cons i inputs ih =>
    rw [inputsFor]
    split
    · next hfor =>
      exact ih ((mode_step_of_isFor hfor).trans hu) fun p hp => part_step_of_isFor hfor hu hp (h p hp)
    · next hother =>
      have hkeep (p : Part) (hp : p ∈ m.parts) : (w.step i).part p = u.part p := by
        rw [part_step_of_isFor_eq_false (Bool.eq_false_of_not_eq_true hother) hp, h p hp]
      exact ih hu hkeep

/-- **Inputs of the user touch only what they own.** A part of the state changes
    only by an input that may change it, and an evaluation changes none but the
    outputs. In a run from any state, the inputs of a mode become what those of
    the run's inputs that are meant for them make of them, without the others. -/
theorem parts_owned :
    (∀ (w : Window) i p, (w.step i).part p ≠ w.part p → w.MayChange i p) ∧
    (∀ (w : Window) p, p ≠ .outputs → w.evaluate.part p = w.part p) ∧
    ∀ (w : Window) m inputs, ∀ p ∈ m.parts,
      (w.run inputs).part p = ({ w with mode := m }.run (w.inputsFor m inputs)).part p := by
  refine ⟨fun w i p hchanges => ?_, fun w p hp => w.part_evaluate hp, fun w m inputs => ?_⟩
  · by_contra hmay
    exact hchanges (w.part_step i hmay)
  · refine part_run_inputsFor inputs rfl fun p hp => ?_
    rcases Mode.mem_parts_iff.mp hp with ⟨f, rfl, -⟩ | ⟨rfl, -⟩ | ⟨rfl, -⟩
    · cases f <;> rfl
    · rfl
    · rfl

/-- The expression is still there after a division by zero, and after a detour
    through another mode in which an evaluation fails and the inputs are emptied. -/
theorem parts_owned_samples :
    let w := { initial with entry := "1/0" };
    let detour : List Input := [.event (.click (.mode .reduce)), .type .operands "x",
      .event (.pick "divide"), .event .enter, .event (.click .evaluate), .event .escape,
      .event (.click (.mode .expression))];
    w.evaluate.error = "division par zéro" ∧ w.evaluate.part (.field .entry) = "1/0" ∧
      (w.run detour).operator = "divide" ∧ (w.run detour).part (.field .entry) = "1/0" ∧
      (w.step (.event (.click (.mode .reduce)))).part .mode ≠ w.part .mode ∧
      w.MayChange (.event (.click (.mode .reduce))) .mode := by
  intro w detour
  have hnone : w.inputsFor .expression detour = [] := by
    rw [← List.isEmpty_iff]
    decide +kernel
  have hchanges : (w.step (.event (.click (.mode .reduce)))).part .mode ≠ w.part .mode :=
    fun h => Mode.noConfusion h
  refine ⟨by decide +kernel, parts_owned.2.1 w (.field .entry) (by decide), by decide +kernel, ?_,
    hchanges, parts_owned.1 w _ .mode hchanges⟩
  rw [parts_owned.2.2 w .expression detour (.field .entry) (by decide), hnone]
  rfl

end Window

end PostfixCalc
