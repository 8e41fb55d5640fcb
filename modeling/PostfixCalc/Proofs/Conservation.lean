import Mathlib.Tactic
import PostfixCalc.Postfix
import PostfixCalc.Proofs.Outcome

/-!
# What the conversion keeps

On its way through the conversion a token is emitted or waits on the stack, and
nothing is lost but the parentheses: a closing one goes away with the open one
that it meets. So the program has the tokens of the infix expression in another
order, without their parentheses.

Results:
* `Conversion.perm_step`: a token that is read is kept, unless it is a
  parenthesis.
* `Conversion.Tidy.step`: what is emitted is no parenthesis, and only open ones
  wait.
* `Postfix.perm_of_ofInfix`: the program is a permutation of the tokens without
  their parentheses.
-/

namespace PostfixCalc

open scoped List

/-- Whether the token is a parenthesis. -/
def Token.isParenthesis : Token → Bool
  | lpar | rpar => true
  | num _ | op _ | neg => false

theorem Token.isParenthesis_of_isOperator {t : Token} (h : t.isOperator = true) :
    t.isParenthesis = false := by
  cases t with
  | op symbol => rfl
  | neg => rfl
  | num literal => cases h
  | lpar => cases h
  | rpar => cases h

namespace Conversion

/-! ## Nothing else is lost -/

/-- The tokens that are emitted or wait. -/
def held (s : Conversion) : List Token := s.emitted ++ s.stack

/-- The tokens that are emitted or wait, without the parentheses. -/
def kept (s : Conversion) : List Token := s.held.filter (!·.isParenthesis)

theorem perm_pushOperator (s : Conversion) (t : Token) :
    (s.pushOperator t).held ~ t :: s.held := by
  rw [List.perm_iff_count]
  intro u
  have hsplit := congrArg (List.count u) (s.stack.takeWhile_append_dropWhile (p := t.yields))
  simp only [List.count_append] at hsplit
  simp only [held, pushOperator, emit, List.count_append, List.count_reverse, List.count_cons]
  omega

/-- A closing parenthesis is not held, and takes one open parenthesis with it. -/
theorem perm_close {s s' : Conversion} (h : s.close = .ok s') :
    .lpar :: s'.held ~ s.held := by
  obtain ⟨above, below, hstack, -, rfl⟩ := exists_of_close h
  rw [List.perm_iff_count]
  intro u
  simp only [held, emit, hstack, List.count_append, List.count_reverse, List.count_cons]
  omega

/-- A token that is read is kept, unless it is a parenthesis. -/
theorem perm_step {s s' : Conversion} {t : Token} (h : s.step t = .ok s') :
    s'.kept ~ [t].filter (!·.isParenthesis) ++ s.kept := by
  cases t with
  | num literal =>
    obtain rfl := Except.ok.inj h
    exact .refl _
  | op symbol =>
    obtain rfl := Except.ok.inj h
    exact (perm_pushOperator s (.op symbol)).filter (!·.isParenthesis)
  | neg =>
    obtain rfl := Except.ok.inj h
    exact (perm_pushOperator s .neg).filter (!·.isParenthesis)
  | lpar =>
    obtain rfl := Except.ok.inj h
    exact List.perm_middle.filter (fun u : Token => !u.isParenthesis)
  | rpar => exact (perm_close h).filter (!·.isParenthesis)

/-- All tokens that are read are kept, apart from the parentheses. -/
theorem perm_foldlM {s s' : Conversion} {tokens : List Token}
    (h : tokens.foldlM step s = .ok s') :
    s'.kept ~ tokens.filter (!·.isParenthesis) ++ s.kept := by
  induction tokens generalizing s with
  | nil =>
    obtain rfl := Except.ok.inj h
    exact .refl _
  | cons t tokens ih =>
    obtain ⟨middle, hstep, hrest⟩ := bind_eq_ok_iff.mp h
    calc s'.kept ~ tokens.filter (!·.isParenthesis) ++ middle.kept := ih hrest
      _ ~ tokens.filter (!·.isParenthesis) ++ ([t].filter (!·.isParenthesis) ++ s.kept) :=
        (perm_step hstep).append_left _
      _ ~ [t].filter (!·.isParenthesis) ++ (tokens.filter (!·.isParenthesis) ++ s.kept) :=
        List.perm_append_comm_assoc ..
      _ = (t :: tokens).filter (!·.isParenthesis) ++ s.kept := by
        rw [← List.append_assoc, ← List.filter_append]
        rfl

/-! ## Where parentheses are -/

/-- What is emitted is no parenthesis, and only operators and open parentheses wait. -/
structure Tidy (s : Conversion) : Prop where
  emitted : ∀ t ∈ s.emitted, t.isParenthesis = false
  stack : ∀ t ∈ s.stack, t = .lpar ∨ t.isOperator = true

theorem tidy_start : Tidy start := ⟨by simp [start], by simp [start]⟩

theorem Tidy.pushOperator {s : Conversion} (h : s.Tidy) {t : Token} (ht : t.isOperator = true) :
    (s.pushOperator t).Tidy := by
  constructor
  · intro u hu
    rcases List.mem_append.mp hu with hu | hu
    · have hyields := List.all_eq_true.mp List.all_takeWhile u (List.mem_reverse.mp hu)
      rw [Token.yields, Bool.and_eq_true] at hyields
      exact Token.isParenthesis_of_isOperator hyields.1
    · exact h.emitted u hu
  · intro u hu
    rcases List.mem_cons.mp hu with rfl | hu
    · exact .inr ht
    · exact h.stack u ((List.dropWhile_suffix _).mem hu)

theorem Tidy.close {s s' : Conversion} (h : s.Tidy) (hs : s.close = .ok s') : s'.Tidy := by
  obtain ⟨above, below, hstack, hnone, rfl⟩ := exists_of_close hs
  have hmem := h.stack
  simp only [hstack, List.mem_append, List.mem_cons] at hmem
  constructor
  · intro u hu
    rcases List.mem_append.mp hu with hu | hu
    · have hu := List.mem_reverse.mp hu
      rcases hmem u (.inl hu) with rfl | hop
      · exact absurd hu hnone
      · exact Token.isParenthesis_of_isOperator hop
    · exact h.emitted u hu
  · exact fun u hu => hmem u (.inr (.inr hu))

theorem Tidy.step {s s' : Conversion} {t : Token} (h : s.Tidy) (hs : s.step t = .ok s') :
    s'.Tidy := by
  cases t with
  | num literal =>
    obtain rfl := Except.ok.inj hs
    exact ⟨List.forall_mem_cons.mpr ⟨rfl, h.emitted⟩, h.stack⟩
  | op symbol =>
    obtain rfl := Except.ok.inj hs
    exact h.pushOperator rfl
  | neg =>
    obtain rfl := Except.ok.inj hs
    exact h.pushOperator rfl
  | lpar =>
    obtain rfl := Except.ok.inj hs
    exact ⟨h.emitted, List.forall_mem_cons.mpr ⟨.inl rfl, h.stack⟩⟩
  | rpar => exact h.close hs

theorem Tidy.foldlM {s s' : Conversion} {tokens : List Token} (h : s.Tidy)
    (hs : tokens.foldlM Conversion.step s = .ok s') : s'.Tidy :=
  invariant_foldlM (fun _ _ _ htidy hstep => htidy.step hstep) h hs

/-- At the end nothing is held but what is kept. -/
theorem perm_finish {s : Conversion} {program : List Token} (h : s.Tidy)
    (hs : s.finish = .ok program) : program ~ s.kept := by
  unfold finish at hs
  split_ifs at hs with hall
  obtain rfl := Except.ok.inj hs
  have hkept : s.kept = s.held := by
    rw [kept, List.filter_eq_self]
    intro t ht
    rcases List.mem_append.mp ht with ht | ht
    · simp [h.emitted t ht]
    · simp [Token.isParenthesis_of_isOperator (List.all_eq_true.mp hall t ht)]
  rw [hkept]
  calc (s.emit s.stack).reverse ~ s.emit s.stack := List.reverse_perm _
    _ ~ s.stack ++ s.emitted := (List.reverse_perm _).append_right _
    _ ~ s.held := List.perm_append_comm

end Conversion

/-- The program is a permutation of the tokens without their parentheses. -/
theorem Postfix.perm_of_ofInfix {tokens program : List Token} (h : ofInfix tokens = .ok program) :
    program ~ tokens.filter (!·.isParenthesis) := by
  obtain ⟨s, hrun, hfinish⟩ := bind_eq_ok_iff.mp h
  have hkept := Conversion.perm_foldlM hrun
  rw [show Conversion.start.kept = [] from rfl, List.append_nil] at hkept
  exact (Conversion.perm_finish (Conversion.tidy_start.foldlM hrun) hfinish).trans hkept

end PostfixCalc
