import Mathlib.Data.List.TakeWhile
import PostfixCalc.Proofs.Conservation
import PostfixCalc.Proofs.Grammar

/-!
# The order in which operators wait

An operator that comes in lets go what binds at least as tightly, so what it
waits on top of binds less tightly. Only a unary minus waits on top of its like.
An open parenthesis separates what waits above it from what waits below, and the
part above is gone when it is closed. So in each part the operators stand in the
order of their precedence, with the tightest on top, and come out in this order.

Results:
* `Token.waitsOn_of_yields_eq_false`: what an operator does not let go it may
  wait on.
* `Conversion.Ordered.step`: every token keeps the order.
* `Conversion.Ordered.pairwise_waiting`: above the last open parenthesis the
  precedences do not increase on the way down.
* `Postfix.stack_ordered`: the stack of every conversion, after every token.
-/

namespace PostfixCalc

namespace Token

/-- An operator directly on top of another one binds more tightly, unless both
    are unary minuses. -/
def WaitsOn (upper lower : Token) : Prop :=
  upper.isOperator = true → lower.isOperator = true →
    lower.precedence < upper.precedence ∨ upper = neg ∧ lower = neg

/-- The unary minus has a precedence of its own. -/
theorem eq_neg_of_precedence {t : Token} (h : t.precedence = neg.precedence) : t = neg := by
  cases t with
  | op symbol =>
    have hle := level_le symbol
    have hlevel : level symbol = 3 := (precedence_op symbol).symm.trans h
    omega
  | neg => rfl
  | num literal => cases h
  | lpar => cases h
  | rpar => cases h

/-- What an operator does not let go it may wait on. -/
theorem waitsOn_of_yields_eq_false {incoming top : Token} (h : incoming.yields top = false) :
    incoming.WaitsOn top := by
  intro _ htop
  simp only [yields, htop, Bool.true_and, Bool.or_eq_false_iff, decide_eq_false_iff_not,
    Bool.and_eq_false_iff, beq_eq_false_iff_ne, bne_eq_false_iff_eq] at h
  obtain ⟨hle, hne | rfl⟩ := h
  · exact .inl (by omega)
  · rcases Nat.lt_or_ge top.precedence neg.precedence with hlt | hge
    · exact .inl hlt
    · exact .inr ⟨rfl, eq_neg_of_precedence (by omega)⟩

end Token

namespace Conversion

/-- What waits above the last open parenthesis, the top first. -/
def waiting (s : Conversion) : List Token := s.stack.takeWhile (· != .lpar)

/-- Each operator may wait on the one below it. -/
def Ordered (s : Conversion) : Prop := s.stack.IsChain Token.WaitsOn

theorem ordered_start : Ordered start := List.isChain_nil

namespace Ordered

variable {s s' : Conversion}

theorem pushOperator (h : s.Ordered) (t : Token) : (s.pushOperator t).Ordered := by
  refine List.isChain_cons.mpr ⟨?_, h.suffix (List.dropWhile_suffix _)⟩
  intro top htop
  have hhead := List.head?_dropWhile_not t.yields s.stack
  rw [Option.mem_def.mp htop] at hhead
  exact Token.waitsOn_of_yields_eq_false hhead

/-- Closing a parenthesis uncovers an older part of the stack. -/
theorem close (h : s.Ordered) (hs : s.close = .ok s') : s'.Ordered := by
  obtain ⟨above, below, hstack, -, rfl⟩ := exists_of_close hs
  exact h.suffix ⟨above ++ [.lpar], by rw [hstack, List.append_assoc]; rfl⟩

/-- Every token keeps the order. -/
theorem step {t : Token} (h : s.Ordered) (hs : s.step t = .ok s') : s'.Ordered := by
  cases t with
  | num literal =>
    obtain rfl := Except.ok.inj hs
    exact h
  | op symbol =>
    obtain rfl := Except.ok.inj hs
    exact h.pushOperator (.op symbol)
  | neg =>
    obtain rfl := Except.ok.inj hs
    exact h.pushOperator .neg
  | lpar =>
    obtain rfl := Except.ok.inj hs
    exact List.isChain_cons.mpr ⟨fun _ _ hlpar => (by cases hlpar), h⟩
  | rpar => exact h.close hs

theorem foldlM {tokens : List Token} (h : s.Ordered)
    (hs : tokens.foldlM Conversion.step s = .ok s') : s'.Ordered :=
  invariant_foldlM (fun _ _ _ hordered hstep => hordered.step hstep) h hs

/-- Above the last open parenthesis there are operators only, and their
    precedences do not increase on the way down. -/
theorem pairwise_waiting (h : s.Ordered) (htidy : s.Tidy) :
    (s.waiting.map Token.precedence).Pairwise (· ≥ ·) := by
  have hsplit : s.waiting ++ s.stack.dropWhile (· != .lpar) = s.stack :=
    List.takeWhile_append_dropWhile
  rw [Ordered, ← hsplit] at h
  have hoperator : ∀ t ∈ s.waiting, t.isOperator = true := by
    intro t ht
    have hne : (t != .lpar) = true := List.all_eq_true.mp List.all_takeWhile t ht
    rcases htidy.stack t (hsplit ▸ List.mem_append_left _ ht) with rfl | hop
    · cases hne
    · exact hop
  have hchain : s.waiting.IsChain fun upper lower => upper.precedence ≥ lower.precedence := by
    refine h.left_of_append.imp_of_mem_imp fun upper lower hu hl hwaits => ?_
    rcases hwaits (hoperator upper hu) (hoperator lower hl) with hlt | ⟨rfl, rfl⟩
    · exact hlt.le
    · exact le_rfl
  exact ((List.isChain_map Token.precedence).mpr hchain).pairwise

end Ordered

/-! ## What comes out -/

/-- A closing parenthesis emits what waits above the last open one. -/
theorem emitted_of_close {s s' : Conversion} (h : s.close = .ok s') :
    s.stack = s.waiting ++ .lpar :: s'.stack ∧ s'.emitted = s.waiting.reverse ++ s.emitted := by
  obtain ⟨above, below, hstack, hnone, rfl⟩ := exists_of_close h
  have habove : s.waiting = above := by
    have hall : ∀ t ∈ above, (t != Token.lpar) = true := by
      intro t ht
      simpa using ne_of_mem_of_not_mem ht hnone
    rw [waiting, hstack, List.takeWhile_append_of_pos hall]
    exact List.append_nil above
  rw [habove]
  exact ⟨hstack, rfl⟩

/-- The end emits all that waits, and no parenthesis is open. -/
theorem emitted_of_finish {s : Conversion} {program : List Token} (h : s.finish = .ok program) :
    s.stack = s.waiting ∧ program = s.emitted.reverse ++ s.waiting := by
  unfold finish at h
  split_ifs at h with hall
  obtain rfl := Except.ok.inj h
  have hwaiting : s.waiting = s.stack := by
    rw [waiting, List.takeWhile_eq_self_iff]
    intro t ht
    have hop := List.all_eq_true.mp hall t ht
    cases t with
    | lpar => cases hop
    | num _ | op _ | neg | rpar => rfl
  rw [hwaiting]
  exact ⟨rfl, by simp [emit]⟩

end Conversion

/-- **Operators wait in the order of their precedence.** After any tokens, of any
    conversion that goes on with any others, an operator on the stack binds more
    tightly than an operator directly below it, or both are unary minuses, and
    no closing parenthesis waits. What waits above the last open parenthesis is
    in an order of precedences that do not increase, and this is what the next
    closing parenthesis and the end emit, in this order. -/
theorem Postfix.stack_ordered {read : List Token} {s : Conversion}
    (h : read.foldlM Conversion.step Conversion.start = .ok s) :
    (∀ rest, ofInfix (read ++ rest) = rest.foldlM Conversion.step s >>= Conversion.finish) ∧
    (∀ above upper lower below, s.stack = above ++ upper :: lower :: below →
      upper.isOperator = true → lower.isOperator = true →
        lower.precedence < upper.precedence ∨ upper = .neg ∧ lower = .neg) ∧
    .rpar ∉ s.stack ∧
    (s.waiting.map Token.precedence).Pairwise (· ≥ ·) ∧
    (∀ s', s.step .rpar = .ok s' →
      s.stack = s.waiting ++ .lpar :: s'.stack ∧
        s'.emitted.reverse = s.emitted.reverse ++ s.waiting) ∧
    ∀ program, s.finish = .ok program →
      s.stack = s.waiting ∧ program = s.emitted.reverse ++ s.waiting := by
  have htidy : s.Tidy := Conversion.tidy_start.foldlM h
  have hordered : s.Ordered := Conversion.ordered_start.foldlM h
  refine ⟨fun rest => ?_, fun above upper lower below hstack => ?_, fun hmem => ?_,
    hordered.pairwise_waiting htidy, fun s' hclose => ?_, fun program => Conversion.emitted_of_finish⟩
  · rw [ofInfix, List.foldlM_append, h]
    rfl
  · exact List.isChain_iff_forall_rel_of_append_cons_cons.mp hordered hstack
  · rcases htidy.stack _ hmem with heq | hop
    · cases heq
    · cases hop
  · obtain ⟨hstack, hemitted⟩ := Conversion.emitted_of_close hclose
    exact ⟨hstack, by rw [hemitted, List.reverse_append, List.reverse_reverse]⟩

/-- Two unary minuses wait on a sum, and below an open parenthesis an operator
    that binds less tightly than any of the four. -/
theorem Postfix.stack_ordered_minuses :
    let read : List Token := [.num "1", .op '^', .lpar, .num "2", .op '+', .neg, .neg, .num "3"];
    let s : Conversion := ⟨[.num "3", .num "2", .num "1"],
      [.neg, .neg, .op '+', .lpar, .op '^']⟩;
    read.foldlM Conversion.step Conversion.start = .ok s ∧
      s.waiting = [.neg, .neg, .op '+'] ∧
      (s.waiting.map Token.precedence).Pairwise (· ≥ ·) ∧
      ofInfix (read ++ [.rpar]) =
        .ok [.num "1", .num "2", .num "3", .neg, .neg, .op '+', .op '^'] := by
  intro read s
  have hrun : read.foldlM Conversion.step Conversion.start = .ok s := by decide
  obtain ⟨hrest, -, -, hpairwise, -⟩ := stack_ordered hrun
  refine ⟨hrun, rfl, hpairwise, ?_⟩
  rw [hrest]
  decide

end PostfixCalc
