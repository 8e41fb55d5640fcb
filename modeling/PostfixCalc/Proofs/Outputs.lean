import PostfixCalc.Proofs.Actions
import PostfixCalc.Proofs.Outcome

/-!
# The outputs account for the history

What the window shows was computed by one of the evaluations of the run. A
result may be older than the last evaluation, since an error leaves it where it
is, but nothing that makes it void has happened since. An error and the steps of
a computation are never older than that.

Results:
* `Window.perform_cases`: what an action can do to the outputs.
* `Accounts.perform`: after every action the outputs still account for the
  history.
* `Window.outputs_account`: so they do after every run.
-/

namespace PostfixCalc

/-! ## What a history says of the outputs -/

namespace Record

/-- The action is an evaluation. -/
def Evaluates (q : Record) : Prop :=
  q.action = .evaluate

/-- The action is an evaluation that succeeds. -/
def Succeeds (q : Record) : Prop :=
  q.Evaluates ∧ ∃ shown, q.before.outcome = .ok shown

/-- The action takes all outputs away: it empties them, or all but the mode, or
    it changes the mode. -/
def Clears (q : Record) : Prop :=
  q.action = .clearOutputs ∨ q.action = .reset ∨ ∃ mode ≠ q.before.mode, q.action = .setMode mode

/-- No earlier result is shown after the action. -/
def Replaces (q : Record) : Prop :=
  q.Clears ∨ q.Succeeds

end Record

/-- `q` is the last record that satisfies `p`. -/
def IsLast (p : Record → Prop) (past : List Record) (q : Record) : Prop :=
  p q ∧ ∃ before after, past = before ++ q :: after ∧ ∀ r ∈ after, ¬ p r

theorem isLast_append {p : Record → Prop} {q : Record} (h : p q) (past : List Record) :
    IsLast p (past ++ [q]) q :=
  ⟨h, past, [], rfl, by simp⟩

theorem IsLast.append {p : Record → Prop} {past : List Record} {q r : Record}
    (h : IsLast p past q) (hr : ¬ p r) : IsLast p (past ++ [r]) q := by
  obtain ⟨hq, before, after, rfl, hafter⟩ := h
  refine ⟨hq, before, after ++ [r], by simp, fun s hs => ?_⟩
  rcases List.mem_append.mp hs with hs | hs
  · exact hafter s hs
  · rwa [List.mem_singleton.mp hs]

/-- The outputs of `w` after a history. -/
structure Accounts (past : List Record) (w : Window) : Prop where
  /-- A result is that of the last successful evaluation, which was in the mode
      of `w`, and the outputs were not cleared since. -/
  result : w.result = "" ∨ ∃ q working,
    IsLast Record.Replaces past q ∧ q.Evaluates ∧
      q.before.outcome = .ok (w.result, working) ∧ q.before.mode = w.mode
  /-- The steps lead to the result that is shown. -/
  working : w.working ≠ .none → w.mode = .expression ∧ w.error = "" ∧
    ∃ s v, Expression.explain .standard s = .ok (v, w.working) ∧ w.result = Scalar.text v
  /-- An error is that of the last evaluation. -/
  error : w.error ≠ "" → w.working = .none ∧ ∃ q e,
    IsLast Record.Evaluates past q ∧ q.before.outcome = .error e ∧ w.error = e.message

/-! ## What an action does to the outputs -/

namespace Window

/-- An action evaluates, or clears the outputs, or leaves them and the mode as
    they are. -/
theorem perform_cases (w : Window) (a : Action) :
    a = .evaluate ∨
    ((w.perform a).result = "" ∧ (w.perform a).error = "" ∧ (w.perform a).working = .none) ∨
    (¬ Record.Clears ⟨w, a⟩ ∧ ¬ Record.Evaluates ⟨w, a⟩ ∧ (w.perform a).mode = w.mode ∧
      (w.perform a).result = w.result ∧ (w.perform a).error = w.error ∧
      (w.perform a).working = w.working) := by
  cases a with
  | evaluate => exact .inl rfl
  | clearOutputs => exact .inr (.inl ⟨rfl, rfl, rfl⟩)
  | reset => exact .inr (.inl ⟨rfl, rfl, rfl⟩)
  | setMode mode =>
    by_cases hmode : w.mode = mode
    · subst hmode
      have hkeep : w.perform (.setMode w.mode) = w := setMode_self w
      rw [hkeep]
      exact .inr (.inr ⟨by simp [Record.Clears], by simp [Record.Evaluates], rfl, rfl, rfl, rfl⟩)
    · have hclear : w.perform (.setMode mode) = { w with mode := mode }.clearOutputs :=
        if_neg hmode
      rw [hclear]
      exact .inr (.inl ⟨rfl, rfl, rfl⟩)
  | clearInputs =>
    refine .inr (.inr ⟨by simp [Record.Clears], by simp [Record.Evaluates], ?_⟩)
    simp only [perform, clearInputs]
    split <;> exact ⟨rfl, rfl, rfl, rfl⟩
  | type field text =>
    refine .inr (.inr ⟨by simp [Record.Clears], by simp [Record.Evaluates], ?_⟩)
    cases field <;> exact ⟨rfl, rfl, rfl, rfl⟩
  | focus | press k | chooseOperator key | chooseGridOperator operation =>
    exact .inr (.inr ⟨by simp [Record.Clears], by simp [Record.Evaluates], rfl, rfl, rfl, rfl⟩)

/-- A job has no steps to show. -/
theorem working_of_jobOutcome {job : Except CalcError Job} {text : String} {working : Working}
    (h : jobOutcome job = .ok (text, working)) : working = .none := by
  obtain ⟨_, -, h⟩ := bind_eq_ok_iff.mp h
  obtain ⟨_, -, h⟩ := bind_eq_ok_iff.mp h
  exact (Prod.mk.inj (Except.ok.inj h)).2.symm

/-- The steps of the expression typed lead to its value. -/
theorem explain_of_entryOutcome {w : Window} {text : String} {working : Working}
    (h : w.entryOutcome = .ok (text, working)) :
    ∃ s v, Expression.explain .standard s = .ok (v, working) ∧ text = Scalar.text v := by
  simp only [entryOutcome] at h
  split at h
  · cases h
  · obtain ⟨⟨v, steps⟩, hexplain, h⟩ := bind_eq_ok_iff.mp h
    obtain ⟨rfl, rfl⟩ := Prod.mk.inj (Except.ok.inj h)
    exact ⟨_, v, hexplain, rfl⟩

/-- Only an expression has steps, and they lead to its value. -/
theorem explain_of_outcome {w : Window} {text : String} {working : Working}
    (h : w.outcome = .ok (text, working)) (hworking : working ≠ .none) :
    w.mode = .expression ∧
      ∃ s v, Expression.explain .standard s = .ok (v, working) ∧ text = Scalar.text v := by
  unfold outcome at h
  split at h
  · next hmode => exact ⟨hmode, explain_of_entryOutcome h⟩
  · exact absurd (working_of_jobOutcome h) hworking
  · exact absurd (working_of_jobOutcome h) hworking

end Window

/-! ## Every action keeps the account -/

namespace Accounts

variable {past : List Record} {w v : Window}

/-- Empty outputs need no account. -/
theorem of_cleared (past : List Record) (hresult : w.result = "") (herror : w.error = "")
    (hworking : w.working = .none) : Accounts past w where
  result := .inl hresult
  working := fun h => absurd hworking h
  error := fun h => absurd herror h

/-- The account of a result stands until an action replaces it. -/
theorem result_append (h : Accounts past w) {q : Record} (hq : ¬ q.Replaces) :
    w.result = "" ∨ ∃ r working, IsLast Record.Replaces (past ++ [q]) r ∧ r.Evaluates ∧
      r.before.outcome = .ok (w.result, working) ∧ r.before.mode = w.mode := by
  rcases h.result with hempty | ⟨r, working, hlast, hr⟩
  · exact .inl hempty
  · exact .inr ⟨r, working, hlast.append hq, hr⟩

/-- An account stands while neither the outputs nor the mode change. -/
theorem append (h : Accounts past w) {q : Record} (hclears : ¬ q.Clears)
    (hevaluates : ¬ q.Evaluates) (hmode : v.mode = w.mode) (hresult : v.result = w.result)
    (herror : v.error = w.error) (hworking : v.working = w.working) :
    Accounts (past ++ [q]) v where
  result := by
    rw [hresult, hmode]
    apply h.result_append
    rintro (hq | hq)
    · exact hclears hq
    · exact hevaluates hq.1
  working := by
    rw [hresult, hmode, herror, hworking]
    exact h.working
  error := by
    rw [herror, hworking]
    intro hne
    obtain ⟨hnone, r, e, hlast, hr⟩ := h.error hne
    exact ⟨hnone, r, e, hlast.append hevaluates, hr⟩

/-- An evaluation accounts for its own result or error, and keeps the last
    result after an error. -/
theorem evaluate (h : Accounts past w) : Accounts (past ++ [⟨w, .evaluate⟩]) w.evaluate := by
  have hevaluates : Record.Evaluates ⟨w, .evaluate⟩ := rfl
  cases houtcome : w.outcome with
  | ok shown =>
    obtain ⟨text, working⟩ := shown
    have hlast : IsLast Record.Replaces (past ++ [⟨w, .evaluate⟩]) ⟨w, .evaluate⟩ :=
      isLast_append (.inr ⟨hevaluates, _, houtcome⟩) past
    rw [Window.evaluate_of_ok houtcome]
    refine ⟨.inr ⟨_, working, hlast, hevaluates, houtcome, rfl⟩, fun hworking => ?_, ?_⟩
    · obtain ⟨hmode, hexplain⟩ := Window.explain_of_outcome houtcome hworking
      exact ⟨hmode, rfl, hexplain⟩
    · intro herror
      exact absurd rfl herror
  | error e =>
    have hkept : ¬ Record.Replaces ⟨w, .evaluate⟩ := by
      rintro (hclears | ⟨-, shown, hok⟩)
      · simp [Record.Clears] at hclears
      · rw [houtcome] at hok
        cases hok
    rw [Window.evaluate_of_error houtcome]
    refine ⟨h.result_append hkept, fun hworking => absurd rfl hworking, fun _ => ?_⟩
    exact ⟨rfl, _, e, isLast_append hevaluates past, houtcome, rfl⟩

/-- After every action the outputs still account for the history. -/
theorem perform (h : Accounts past w) (a : Action) :
    Accounts (past ++ [⟨w, a⟩]) (w.perform a) := by
  rcases w.perform_cases a with rfl | ⟨hresult, herror, hworking⟩ |
    ⟨hclears, hevaluate, hmode, hresult, herror, hworking⟩
  · exact h.evaluate
  · exact of_cleared _ hresult herror hworking
  · exact h.append hclears hevaluate hmode hresult herror hworking

end Accounts

/-- **The outputs are never stale or mixed**: after every run of a window just
    opened they account for its history. -/
theorem Window.outputs_account (inputs : List Input) :
    Accounts (initial.history inputs) (initial.run inputs) := by
  have hperform : ∀ past w a, Accounts past w → Accounts (past ++ [⟨w, a⟩]) (w.perform a) :=
    fun _ _ a h => h.perform a
  have hinitial : Accounts [] initial := .of_cleared [] rfl rfl rfl
  exact invariant_run hperform hinitial inputs

/-- A result stays while the next expression fails, and goes with the mode. -/
example :
    let failed := Window.initial.run
      [.type .entry "1+2", .event .enter, .type .entry "1/0", .event (.click .evaluate)]
    (failed.result = "3" ∧ failed.error = "division par zéro" ∧ failed.working = .none) ∧
      (failed.run [.event (.click (.mode .matrices))]).result = "" := by
  decide +kernel

end PostfixCalc
