import Mathlib.Tactic

/-!
# Outcomes of a computation in stages

What is known of the outcome of a computation that may fail tells of the
outcomes of its stages.

Results:
* `bind_eq_ok_iff`, `bind_eq_error_iff`: two stages in a row.
* `map_eq_ok_iff`, `mapError_eq_error_iff`: a stage whose value or error is
  mapped.
* `invariant_foldlM`: what every stage keeps.
-/

namespace PostfixCalc

variable {ε ε' α β : Type} {x : Except ε α}

/-- Two stages succeed if both do. -/
theorem bind_eq_ok_iff {f : α → Except ε β} {b : β} :
    x >>= f = .ok b ↔ ∃ a, x = .ok a ∧ f a = .ok b := by
  cases x <;> simp [bind, Except.bind]

/-- Two stages fail at the first, or at the second after the first. -/
theorem bind_eq_error_iff {f : α → Except ε β} {e : ε} :
    x >>= f = .error e ↔ x = .error e ∨ ∃ a, x = .ok a ∧ f a = .error e := by
  cases x <;> simp [bind, Except.bind]

theorem map_eq_ok_iff {f : α → β} {b : β} : x.map f = .ok b ↔ ∃ a, x = .ok a ∧ f a = b := by
  cases x <;> simp [Except.map]

theorem map_eq_error_iff {f : α → β} {e : ε} : x.map f = .error e ↔ x = .error e := by
  cases x <;> simp [Except.map]

theorem mapError_eq_ok_iff {f : ε → ε'} {a : α} : x.mapError f = .ok a ↔ x = .ok a := by
  cases x <;> simp [Except.mapError]

theorem mapError_eq_error_iff {f : ε → ε'} {e : ε'} :
    x.mapError f = .error e ↔ ∃ e', x = .error e' ∧ f e' = e := by
  cases x <;> simp [Except.mapError]

/-- What every stage keeps, many stages in a row keep. -/
theorem invariant_foldlM {f : α → β → Except ε α} {P : α → Prop}
    (hstep : ∀ a b a', P a → f a b = .ok a' → P a') {a a' : α} {l : List β} (h : P a)
    (hrun : l.foldlM f a = .ok a') : P a' := by
  induction l generalizing a with
  | nil =>
    obtain rfl := Except.ok.inj hrun
    exact h
  | cons b l ih =>
    obtain ⟨middle, hfirst, hrest⟩ := bind_eq_ok_iff.mp hrun
    exact ih (hstep a b middle h hfirst) hrest

end PostfixCalc
