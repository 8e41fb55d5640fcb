import PostfixCalc.Proofs.Ownership

/-!
# The enter key

The field of the expression takes the keyboard in a frame in which the window
wants it to, and only in this frame does the enter key evaluate the expression:
later the field gives the keyboard up on that key before it is looked at. So the
key does what the `=` button does if the last frame was a click that gives the
keyboard back, and nothing for a user who types.

Results:
* `frame_enter`, `frame_click_evaluate`: what the key and the button do.
* `wantsFocus_frame_iff`: after which events the window wants the keyboard.
* `enter_evaluates_iff`: when the key does what the button does.
-/

namespace PostfixCalc.Window

variable {w : Window}

/-! ## The key and the button -/

/-- What is evaluated does not depend on who has the keyboard. -/
theorem evaluate_of_focus (w : Window) (wanted : Bool) :
    { w with wantsFocus := wanted }.evaluate = w.evaluate := by
  have houtcome : { w with wantsFocus := wanted }.outcome = w.outcome := rfl
  rw [evaluate, evaluate, houtcome]
  cases w.outcome <;> rfl

theorem wantsFocus_evaluate (w : Window) : w.evaluate.wantsFocus = true := by
  obtain ⟨_, _, _, heq⟩ := w.exists_evaluate_eq
  rw [heq]

/-- The inputs of an expression, on all events but the enter key. -/
theorem onInputs_of_expression (hmode : w.mode = .expression) {e : Event} (he : e ≠ .enter) :
    w.onInputs e = { w with wantsFocus := false }.onKeypad e := by
  have hother : (e == .enter) = false := by simpa using he
  simp only [onInputs, hmode, onEntry, hother, Bool.and_false, Bool.false_eq_true, if_false]

theorem frame_click_evaluate (hmode : w.mode = .expression) :
    w.frame (.click .evaluate) = w.evaluate := by
  show (w.onInputs (.click .evaluate)).evaluate = w.evaluate
  rw [onInputs_of_expression hmode (by simp)]
  exact w.evaluate_of_focus false

theorem frame_enter (hmode : w.mode = .expression) :
    w.frame .enter = if w.wantsFocus then w.evaluate else w := by
  have hinputs : w.frame .enter = w.onEntry .enter := by
    show w.onInputs .enter = w.onEntry .enter
    simp only [onInputs, hmode, onKeypad]
  rw [hinputs, onEntry, evaluate_of_focus]
  cases hfocus : w.wantsFocus with
  | true => rfl
  | false =>
    have hkeep : { w with wantsFocus := false } = w := by rw [← hfocus]
    exact hkeep

/-! ## Who has the keyboard -/

/-- A frame with an expression leaves the window wanting the keyboard after a
    click on a key or on one of the four buttons, and after an evaluation. -/
theorem wantsFocus_frame_iff (hmode : w.mode = .expression) {e : Event}
    (hstay : (w.frame e).mode = .expression) :
    (w.frame e).wantsFocus = true ↔ (∃ k, e = .click (.key k)) ∨ e = .click .clearInputs ∨
      e = .click .clearOutputs ∨ e = .click .reset ∨ e = .click .evaluate ∨
      e = .enter ∧ w.wantsFocus = true := by
  cases e with
  | enter =>
    rw [frame_enter hmode]
    cases hfocus : w.wantsFocus <;> simp [hfocus, wantsFocus_evaluate]
  | idle | pick =>
    simp [frame, onEscape, onMode, onActions, onInputs_of_expression hmode, onKeypad]
  | escape =>
    have hcleared : w.clearInputs.mode = .expression := by simp [clearInputs, hmode]
    simp [frame, onEscape, onMode, onActions, onInputs_of_expression hcleared, onKeypad]
  | click button =>
    have hinputs : w.onInputs (.click button) =
        { w with wantsFocus := false }.onKeypad (.click button) :=
      onInputs_of_expression hmode (by simp)
    cases button with
    | evaluate => simp [frame_click_evaluate hmode, wantsFocus_evaluate]
    | mode mode =>
      have hmode' : (w.frame (.click (.mode mode))).mode = mode := by
        show ((w.setMode mode).onInputs (.click (.mode mode))).mode = mode
        rw [onInputs_eq_foldl, mode_inputActions, mode_setMode]
      obtain rfl : mode = .expression := hmode'.symm.trans hstay
      have hsame : w.setMode .expression = w := hmode ▸ w.setMode_self
      simp [frame, onEscape, onMode, onActions, hsame, hinputs, onKeypad]
    | clearInputs =>
      simp [frame, onEscape, onMode, onActions, hinputs, onKeypad, clearInputs, hmode]
    | key | clearOutputs | reset | gridOperation | showWorking =>
      simp [frame, onEscape, onMode, onActions, hinputs, onKeypad, clearOutputs, reset, initial]

/-- After the inputs the field has the keyboard: it took it in a frame without
    an event, and since then nothing happened but frames of this kind and typing. -/
inductive HasKeyboard : List Input → Prop
  | take {inputs : List Input} : (initial.run inputs).mode = .expression →
      (initial.run inputs).wantsFocus = true → HasKeyboard (inputs ++ [.event .idle])
  | idle {inputs : List Input} : HasKeyboard inputs → HasKeyboard (inputs ++ [.event .idle])
  | type {inputs : List Input} {text : String} : HasKeyboard inputs →
      HasKeyboard (inputs ++ [.type .entry text])

theorem run_append_singleton (w : Window) (inputs : List Input) (i : Input) :
    w.run (inputs ++ [i]) = (w.run inputs).step i := by
  rw [run, List.foldl_append]
  rfl

/-- A window that got the keyboard for its field does not want it. -/
theorem HasKeyboard.mode_and_wantsFocus {inputs : List Input} (h : HasKeyboard inputs) :
    (initial.run inputs).mode = .expression ∧ (initial.run inputs).wantsFocus = false := by
  have hidle {w : Window} (hmode : w.mode = .expression) :
      (w.step (.event .idle)).mode = .expression ∧ (w.step (.event .idle)).wantsFocus = false := by
    have hframe : w.step (.event .idle) = { w with wantsFocus := false } :=
      onInputs_of_expression hmode (by simp)
    rw [hframe]
    exact ⟨hmode, rfl⟩
  induction h with
  | take hmode _ =>
    rw [run_append_singleton]
    exact hidle hmode
  | idle _ ih =>
    rw [run_append_singleton]
    exact hidle ih.1
  | type _ ih =>
    rw [run_append_singleton]
    exact ih

theorem frame_enter_eq_iff (hmode : w.mode = .expression) :
    w.frame .enter = w.frame (.click .evaluate) ↔ w.wantsFocus = true := by
  rw [frame_enter hmode, frame_click_evaluate hmode]
  cases hfocus : w.wantsFocus with
  | true => simp
  | false =>
    have hne : w ≠ w.evaluate := by
      intro heq
      have hwants := w.wantsFocus_evaluate
      rw [← heq, hfocus] at hwants
      cases hwants
    simpa using hne

/-- **The enter key does what the `=` button does if the window wants the
    keyboard**, and otherwise nothing. It wants it after a frame with a click
    that gives the keyboard back, or with an evaluation, and after no other
    frame: never while the field has had the keyboard since an earlier one. -/
theorem enter_evaluates_iff (w : Window) (hmode : w.mode = .expression) :
    (w.frame .enter = w.frame (.click .evaluate) ↔ w.wantsFocus = true) ∧
    (w.wantsFocus = false → w.frame .enter = w) ∧
    (∀ (v : Window) e, v.mode = .expression → v.frame e = w → (w.wantsFocus = true ↔
      (∃ k, e = .click (.key k)) ∨ e = .click .clearInputs ∨ e = .click .clearOutputs ∨
        e = .click .reset ∨ e = .click .evaluate ∨ e = .enter ∧ v.wantsFocus = true)) ∧
    ∀ inputs, HasKeyboard inputs → initial.run inputs = w → w.wantsFocus = false := by
  refine ⟨frame_enter_eq_iff hmode, ?_, ?_, ?_⟩
  · intro hfocus
    rw [frame_enter hmode, hfocus]
    rfl
  · rintro v e hv rfl
    exact wantsFocus_frame_iff hv hmode
  · rintro inputs h rfl
    exact h.mode_and_wantsFocus.2

/-- In the first frame of all, and after a click on a key, the enter key does
    what the button does. After a frame without an event it does nothing. -/
theorem enter_evaluates_iff_samples :
    let pressed := initial.frame (.click (.key (.figure .point)));
    let waiting := initial.run [.event .idle];
    initial.frame .enter = initial.frame (.click .evaluate) ∧
      pressed.frame .enter = pressed.frame (.click .evaluate) ∧
      waiting.frame .enter = waiting := by
  intro pressed waiting
  obtain ⟨hinitial, -⟩ := enter_evaluates_iff initial rfl
  obtain ⟨hpressed, -, hevent, -⟩ := enter_evaluates_iff pressed rfl
  obtain ⟨-, hnothing, -, hkeyboard⟩ := enter_evaluates_iff waiting rfl
  have htaken : HasKeyboard ([] ++ [.event .idle]) := .take rfl rfl
  refine ⟨hinitial.mpr rfl, ?_, hnothing (hkeyboard _ htaken rfl)⟩
  exact hpressed.mpr ((hevent initial _ rfl rfl).mpr (.inl ⟨_, rfl⟩))

/-- The field has the keyboard and `1+2` is typed into it: the enter key leaves
    the result empty, and the button shows it. -/
theorem enter_ignored_after_typing :
    let typed : List Input := [.event .idle, .type .entry "1+2"];
    HasKeyboard typed ∧ (initial.run typed).mode = .expression ∧
      ((initial.run typed).frame .enter).result = "" ∧
      ((initial.run typed).frame (.click .evaluate)).result = "3" := by
  have htaken : HasKeyboard ([] ++ [.event .idle]) := .take rfl rfl
  exact ⟨.type htaken, by decide +kernel⟩

end PostfixCalc.Window
