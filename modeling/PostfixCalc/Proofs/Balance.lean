import PostfixCalc.Proofs.Conservation
import PostfixCalc.Proofs.Parentheses

/-!
# Which token lists the conversion refuses

The conversion has no counter, but it fails as counting the open parentheses
does: at once where one is closed that was not opened, and at the end if one is
left. Whatever else is wrong with a token list, it is converted. Of two faults
the first one is found, as the conversion gets to the end only if it did not
stop before.

Results:
* `Token.nesting_of_overdrawn`, `Token.nesting_of_not_overdrawn`: counting fails
  where a front part closes more than it opens, and otherwise is a subtraction.
* `Conversion.finish_eq`: the end fails only on an open parenthesis.
* `Postfix.ofInfix_balance`: the conversion fails exactly on parentheses that do
  not match, and the error says which.
-/

namespace PostfixCalc

namespace Token

/-! ## Front parts -/

/-- A front part of the tokens closes more parentheses than are opened in it or
    were open before it. -/
def Overdrawn (depth : ℕ) (tokens : List Token) : Prop :=
  ∃ front, front <+: tokens ∧ depth + front.count .lpar < front.count .rpar

theorem not_overdrawn_nil (depth : ℕ) : ¬ Overdrawn depth [] := by
  rintro ⟨front, hfront, hcount⟩
  rw [List.prefix_nil.mp hfront] at hcount
  simp at hcount

/-- Only a closing parenthesis may fail to be counted, and only at depth 0. -/
theorem of_nest_eq_error {depth : ℕ} {t : Token} {e : ParenError} (h : nest depth t = .error e) :
    t = .rpar ∧ depth = 0 ∧ e = .unopened := by
  cases t with
  | rpar =>
    unfold nest at h
    split_ifs at h with hdepth
    exact ⟨rfl, hdepth, (Except.error.inj h).symm⟩
  | num _ | op _ | neg | lpar => cases h

theorem count_of_nest_eq_ok {depth d : ℕ} {t : Token} (h : nest depth t = .ok d) :
    d + [t].count .rpar = depth + [t].count .lpar := by
  cases t with
  | rpar =>
    unfold nest at h
    split_ifs at h with hdepth
    obtain rfl := Except.ok.inj h
    show depth - 1 + 1 = depth + 0
    omega
  | num _ | op _ | neg | lpar =>
    obtain rfl := Except.ok.inj h
    rfl

/-- A front part that is not empty is the first token and a front part of the
    others, for which the depth is that after the first token. -/
theorem overdrawn_cons_iff {depth : ℕ} {t : Token} {tokens : List Token} :
    Overdrawn depth (t :: tokens) ↔ ∀ d, nest depth t = .ok d → Overdrawn d tokens := by
  have hcount (u : Token) (front : List Token) :
      (t :: front).count u = [t].count u + front.count u := by
    rw [← List.count_append, List.singleton_append]
  constructor
  · rintro ⟨front, hfront, hless⟩ d hd
    rcases List.prefix_cons_iff.mp hfront with rfl | ⟨rest, rfl, hrest⟩
    · simp at hless
    · have hd := count_of_nest_eq_ok hd
      refine ⟨rest, hrest, ?_⟩
      rw [hcount .lpar rest, hcount .rpar rest] at hless
      omega
  · intro h
    cases hnest : nest depth t with
    | error e =>
      obtain ⟨rfl, rfl, -⟩ := of_nest_eq_error hnest
      exact ⟨[.rpar], List.prefix_cons_iff.mpr (.inr ⟨[], rfl, List.nil_prefix⟩), by decide⟩
    | ok d =>
      obtain ⟨rest, hrest, hless⟩ := h d hnest
      have hd := count_of_nest_eq_ok hnest
      refine ⟨t :: rest, List.prefix_cons_iff.mpr (.inr ⟨rest, rfl, hrest⟩), ?_⟩
      rw [hcount .lpar rest, hcount .rpar rest]
      omega

/-! ## Counting -/

theorem nesting_of_overdrawn {depth : ℕ} {tokens : List Token} (h : Overdrawn depth tokens) :
    nesting depth tokens = .error .unopened := by
  induction tokens generalizing depth with
  | nil => exact absurd h (not_overdrawn_nil depth)
  | cons t tokens ih =>
    rw [nesting_cons]
    cases hnest : nest depth t with
    | error e =>
      obtain ⟨-, -, rfl⟩ := of_nest_eq_error hnest
      rfl
    | ok d => exact ih (overdrawn_cons_iff.mp h d hnest)

theorem nesting_of_not_overdrawn {depth : ℕ} {tokens : List Token}
    (h : ¬ Overdrawn depth tokens) :
    nesting depth tokens = .ok (depth + tokens.count .lpar - tokens.count .rpar) := by
  induction tokens generalizing depth with
  | nil => rfl
  | cons t tokens ih =>
    rw [overdrawn_cons_iff] at h
    push Not at h
    obtain ⟨d, hnest, hrest⟩ := h
    have hd := count_of_nest_eq_ok hnest
    rw [nesting_cons, hnest]
    show nesting d tokens = _
    rw [ih hrest, List.count_cons, List.count_cons]
    rw [List.count_singleton, List.count_singleton] at hd
    congr 1
    omega

end Token

/-! ## The conversion -/

/-- Only operators and open parentheses wait, so the end fails only on an open
    parenthesis. -/
theorem Conversion.finish_eq {s : Conversion} (h : s.Tidy) :
    s.finish = if s.depth = 0 then .ok (s.emit s.stack).reverse else .error .unclosed := by
  have hall : s.stack.all Token.isOperator = true ↔ s.depth = 0 := by
    rw [depth, List.count_eq_zero, List.all_eq_true]
    constructor
    · intro hoperator hmem
      cases hoperator _ hmem
    · intro hnone t ht
      rcases h.stack t ht with rfl | hoperator
      · exact absurd ht hnone
      · exact hoperator
  rw [finish]
  simp only [hall]

namespace Postfix

open Token (nesting Overdrawn)

/-- The conversion fails as counting the open parentheses does, and if some are
    left. -/
theorem ofInfix_map_nesting (tokens : List Token) :
    (ofInfix tokens).map (fun _ => ()) =
      nesting 0 tokens >>= fun d => if d = 0 then .ok () else .error .unclosed := by
  have hcount : _ = nesting 0 tokens := Conversion.foldlM_nest .start tokens
  rw [ofInfix, ← hcount]
  cases hrun : tokens.foldlM Conversion.step .start with
  | error e => rfl
  | ok s =>
    show s.finish.map _ = if s.depth = 0 then _ else _
    rw [Conversion.finish_eq (Conversion.tidy_start.foldlM hrun)]
    split_ifs <;> rfl

theorem ofInfix_of_overdrawn {tokens : List Token} (h : Overdrawn 0 tokens) :
    ofInfix tokens = .error .unopened := by
  have hmap := ofInfix_map_nesting tokens
  rw [Token.nesting_of_overdrawn h] at hmap
  exact map_eq_error_iff.mp hmap

theorem ofInfix_of_unclosed {tokens : List Token} (h : ¬ Overdrawn 0 tokens)
    (hmore : tokens.count .rpar < tokens.count .lpar) : ofInfix tokens = .error .unclosed := by
  have hmap := ofInfix_map_nesting tokens
  rw [Token.nesting_of_not_overdrawn h] at hmap
  change _ = if _ then _ else _ at hmap
  rw [if_neg (by omega)] at hmap
  exact map_eq_error_iff.mp hmap

theorem exists_ofInfix_of_balanced {tokens : List Token} (h : ¬ Overdrawn 0 tokens)
    (hmore : ¬ tokens.count .rpar < tokens.count .lpar) :
    ∃ program, ofInfix tokens = .ok program := by
  have hmap := ofInfix_map_nesting tokens
  rw [Token.nesting_of_not_overdrawn h] at hmap
  change _ = if _ then _ else _ at hmap
  rw [if_pos (by omega)] at hmap
  obtain ⟨program, hprogram, -⟩ := map_eq_ok_iff.mp hmap
  exact ⟨program, hprogram⟩

/-- **The conversion fails exactly on parentheses that do not match**: on a
    closing one without an open one if some front part of the tokens has more
    closing ones, whatever follows. Otherwise it fails on an open one without a
    closing one if there are more open ones in all, and otherwise not. -/
theorem ofInfix_balance (tokens : List Token) :
    (ofInfix tokens = .error .unopened ↔
      ∃ front, front <+: tokens ∧ front.count .lpar < front.count .rpar) ∧
    (ofInfix tokens = .error .unclosed ↔
      (¬ ∃ front, front <+: tokens ∧ front.count .lpar < front.count .rpar) ∧
        tokens.count .rpar < tokens.count .lpar) ∧
    ((∃ program, ofInfix tokens = .ok program) ↔
      (¬ ∃ front, front <+: tokens ∧ front.count .lpar < front.count .rpar) ∧
        ¬ tokens.count .rpar < tokens.count .lpar) := by
  have hdrawn : Overdrawn 0 tokens ↔
      ∃ front, front <+: tokens ∧ front.count .lpar < front.count .rpar := by
    simp only [Overdrawn, Nat.zero_add]
  rw [← hdrawn]
  by_cases h : Overdrawn 0 tokens
  · simp [ofInfix_of_overdrawn h, h]
  · by_cases hmore : tokens.count .rpar < tokens.count .lpar
    · simp [ofInfix_of_unclosed h hmore, h, hmore]
    · obtain ⟨program, hprogram⟩ := exists_ofInfix_of_balanced h hmore
      simp only [hprogram, h, hmore]
      simp

/-- The closing parenthesis in front wins over the open one behind it. -/
example : ofInfix [.rpar, .lpar, .num "1", .op '+'] = .error .unopened := by
  decide

end Postfix

end PostfixCalc
