import PostfixCalc.Proofs.Composition
import PostfixCalc.Proofs.Refusal
import PostfixCalc.Window

/-!
# The expression typed in the window

The window takes the white space off both ends of what is typed before it
computes anything, and a computation from a text does not. White space behind a
text changes no token, and white space in front only moves the positions of what
the lexer finds, so the two agree up to positions: the window counts from the
first character that is not white space. All later errors have no position.

Results:
* `tokenize_eq_tokenize_trim`: the tokens of a text and of the trimmed one.
* `Machine.later_of_evaluate_error`: no error of the machine has a position.
* `Expression.evaluateWith_eq_trim`: their values and errors.
* `Window.evaluate_entry`: what the window shows, by the value of the text typed.
-/

namespace PostfixCalc

open Token

/-- How far the trimmed text is into the text: the length of the white space in front. -/
def Text.indent (s : String) : ℕ := (s.toList.takeWhile Text.isBlank).length

/-- The text without the white space at its two ends. -/
def Text.trimmed (s : String) : String := String.ofList (Text.trim s.toList)

/-- The same error for a text with `n` more characters in front. Only the errors
    of the lexer have a position. -/
def CalcError.later (n : ℕ) : CalcError → CalcError
  | lex error => .lex (error.later n)
  | e => e

/-! ## Trimming before lexing -/

/-- A text and the trimmed one have the same tokens, and the same error at
    another position. -/
theorem tokenize_eq_tokenize_trim (s : String) :
    tokenize s = (tokenize (Text.trimmed s)).mapError (LexError.later (Text.indent s)) := by
  obtain ⟨tail, htail, happend⟩ := Text.exists_trim_append s.toList
  have hfront : ∀ c ∈ s.toList.takeWhile Text.isBlank, Text.isBlank c = true :=
    fun c hc => Text.eq_true_of_mem_takeWhile hc
  calc tokenize s
      = lexFrom 0 none
          (s.toList.takeWhile Text.isBlank ++ (Text.trim s.toList ++ tail)) := by
        rw [happend]; rfl
    _ = lexFrom (0 + Text.indent s) none (Text.trim s.toList) := by
        rw [lexFrom_blanks hfront, lexFrom_append_blank htail]; rfl
    _ = (tokenize (Text.trimmed s)).mapError (LexError.later (Text.indent s)) := by
        rw [lexFrom_add_position, tokenize, Text.trimmed, String.toList_ofList]

/-! ## Errors without a position -/

/-- An error of the machine has no position. -/
theorem Machine.later_of_step_error {r : Registry} {stack : List Float} {t : Token} {e : CalcError}
    (h : Machine.step r stack t = .error e) (n : ℕ) : e.later n = e := by
  by_cases ht : t.isParenthesis = true
  · cases t with
    | lpar | rpar => cases h; rfl
    | num literal | op symbol | neg => cases ht
  · rcases Machine.step_error (by simpa using ht) h with
      ⟨l, rfl, hl⟩ | ⟨-, rfl⟩ | ⟨symbol, -, hresolve⟩ | ⟨error, rfl⟩
    · rw [Machine.step, hl] at h
      cases h
      rfl
    · rfl
    · rw [Registry.eq_unsupported_of_resolve hresolve]
      rfl
    · rfl

theorem Machine.later_of_evaluate_error {r : Registry} {program : List Token} {e : CalcError}
    (h : Machine.evaluate r program = .error e) (n : ℕ) : e.later n = e := by
  rcases Machine.evaluate_error h with ⟨t, -, stack, hstep⟩ | ⟨remaining, rfl, -⟩
  · exact Machine.later_of_step_error hstep n
  · rfl

/-! ## Trimming before evaluating -/

namespace Expression

theorem compile_eq_trim (s : String) :
    compile s = (compile (Text.trimmed s)).mapError (CalcError.later (Text.indent s)) := by
  rw [compile, compile, tokenize_eq_tokenize_trim s]
  cases tokenize (Text.trimmed s) with
  | error e => rfl
  | ok tokens =>
    show ((Postfix.ofInfix tokens).mapError CalcError.paren >>= _) = _
    cases hconvert : Postfix.ofInfix tokens with
    | error e => simp [hconvert, Except.mapError, bind, Except.bind, CalcError.later]
    | ok program => simp [hconvert, Except.mapError, bind, Except.bind, pure, Except.pure]

/-- With any operations, a text and the trimmed one have the same value, and the
    same error up to its position. -/
theorem evaluateWith_eq_trim (r : Registry) (s : String) :
    evaluateWith r s =
      (evaluateWith r (Text.trimmed s)).mapError (CalcError.later (Text.indent s)) := by
  rw [evaluateWith, evaluateWith, compile_eq_trim]
  cases compile (Text.trimmed s) with
  | error e => rfl
  | ok compiled =>
    show Machine.evaluate r compiled.2 = (Machine.evaluate r compiled.2).mapError _
    cases hvalue : Machine.evaluate r compiled.2 with
    | ok v => rfl
    | error e =>
      show Except.error e = Except.error (e.later _)
      rw [Machine.later_of_evaluate_error hvalue]

end Expression

/-! ## The window -/

namespace Window

variable {w : Window}

/-- White space alone is no expression. -/
theorem entryOutcome_of_blank (h : ∀ c ∈ w.entry.toList, Text.isBlank c = true) :
    w.entryOutcome = .error (.request .noExpression) := by
  have htrim : Text.trim w.entry.toList = [] := Text.trim_eq_nil_iff.mpr h
  rw [entryOutcome, htrim]
  rfl

/-- All else is explained without the white space at its ends. -/
theorem entryOutcome_of_not_blank (h : ∃ c ∈ w.entry.toList, Text.isBlank c = false) :
    w.entryOutcome = (Expression.explain .standard (Text.trimmed w.entry)).map
      fun explained => (Scalar.text explained.1, explained.2) := by
  have htrim : Text.trimmed w.entry ≠ "" := by
    intro hempty
    obtain ⟨c, hc, hblank⟩ := h
    have hnil : Text.trim w.entry.toList = [] := by
      simpa [Text.trimmed] using congrArg String.toList hempty
    rw [Text.trim_eq_nil_iff.mp hnil c hc] at hblank
    cases hblank
  show (if Text.trimmed w.entry = "" then _ else _) = _
  rw [if_neg htrim]
  show (Expression.explain .standard (Text.trimmed w.entry) >>= _) = _
  cases Expression.explain .standard (Text.trimmed w.entry) <;> rfl

theorem outcome_of_expression (h : w.mode = .expression) : w.outcome = w.entryOutcome := by
  rw [outcome, h]

/-- **The window shows what the text typed has as value or error.** White space
    alone is an error of the window. Of all else the value is shown, and no
    error, or else the message of the error, and the last result stays. The
    position in such a message is counted from where the white space in front
    ends. -/
theorem evaluate_entry (w : Window) (hmode : w.mode = .expression) :
    ((∀ c ∈ w.entry.toList, Text.isBlank c = true) →
      w.evaluate.error = "requête invalide: Entrée vide" ∧ w.evaluate.result = w.result) ∧
    ((∃ c ∈ w.entry.toList, Text.isBlank c = false) →
      (∀ v, Expression.evaluate w.entry = .ok v →
        w.evaluate.result = Scalar.text v ∧ w.evaluate.error = "") ∧
      ∀ e, Expression.evaluate w.entry = .error e →
        ∃ shown : CalcError, e = shown.later (Text.indent w.entry) ∧
          w.evaluate.error = shown.message ∧ w.evaluate.result = w.result) := by
  have houtcome := outcome_of_expression hmode
  refine ⟨fun hblank => ?_, fun hentry => ⟨fun v hv => ?_, fun e he => ?_⟩⟩
  · rw [entryOutcome_of_blank hblank] at houtcome
    rw [evaluate_of_error houtcome]
    exact ⟨rfl, rfl⟩
  · rw [Expression.evaluate, Expression.evaluateWith_eq_trim, mapError_eq_ok_iff,
      ← Expression.explain_value, map_eq_ok_iff] at hv
    obtain ⟨⟨_, working⟩, hexplain, rfl⟩ := hv
    rw [entryOutcome_of_not_blank hentry, hexplain] at houtcome
    rw [evaluate_of_ok houtcome]
    exact ⟨rfl, rfl⟩
  · rw [Expression.evaluate, Expression.evaluateWith_eq_trim, mapError_eq_error_iff] at he
    obtain ⟨shown, hshown, rfl⟩ := he
    rw [← Expression.explain_value, map_eq_error_iff] at hshown
    rw [entryOutcome_of_not_blank hentry, hshown] at houtcome
    rw [evaluate_of_error houtcome]
    exact ⟨shown, rfl, rfl, rfl⟩

/-- White space alone, a sum with white space around it, and a character that
    starts no token: it is the fifth of the text and the third without the white
    space in front. -/
theorem evaluate_entry_samples :
    (let w : Window := { initial with entry := " \t", result := "7" };
      w.evaluate.error = "requête invalide: Entrée vide" ∧ w.evaluate.result = "7") ∧
    (let w : Window := { initial with entry := "\t1 + 2 ", error := "division par zéro" };
      Expression.evaluate w.entry = .ok 3 ∧ w.evaluate.result = Scalar.text 3 ∧
        w.evaluate.error = "") ∧
    (let w : Window := { initial with entry := "  2 # 3 ", result := "7" };
      Expression.evaluate w.entry = .error (.lex (.unexpectedChar '#' 4)) ∧
        Text.indent w.entry = 2 ∧ ∃ shown : CalcError,
          CalcError.lex (.unexpectedChar '#' 4) = shown.later (Text.indent w.entry) ∧
            w.evaluate.error = shown.message ∧ w.evaluate.result = "7") := by
  have hsum : Expression.evaluate "\t1 + 2 " = .ok 3 := by decide +kernel
  have herror : Expression.evaluate "  2 # 3 " = .error (.lex (.unexpectedChar '#' 4)) := by
    decide +kernel
  refine ⟨?_, ⟨hsum, ?_⟩, herror, by decide +kernel, ?_⟩
  · exact (evaluate_entry { initial with entry := " \t", result := "7" } rfl).1
      (by simp [Text.isBlank])
  · exact ((evaluate_entry { initial with entry := "\t1 + 2 ", error := "division par zéro" } rfl).2
      ⟨'1', by simp, by decide⟩).1 3 hsum
  · exact ((evaluate_entry { initial with entry := "  2 # 3 ", result := "7" } rfl).2
      ⟨'2', by simp, by decide⟩).2 _ herror

end Window

end PostfixCalc
