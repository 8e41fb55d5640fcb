import Mathlib.Control.Monad.Basic
import Mathlib.Tactic
import PostfixCalc.Tree

/-!
# Which token lists are programs

A forest is a stack of trees, as the stack of the machine is a stack of
numbers. Reading a token list onto a forest takes the same operands as running
it takes from the numbers, so the two succeed together, and the forest
remembers what the machine forgets.

Results:
* `Forest.program_read`: a forest that was read spells the tokens it was read
  from.
* `Tree.program_injective`: a program belongs to one tree only.
* `Machine.run_read`: a token list that runs can be read, and leaves as many
  trees as numbers.
* `Machine.evaluate_exact`: the machine gives a program the value of its tree
  and refuses every other token list.
-/

namespace PostfixCalc

namespace Token

/-- Whether the token is a number. -/
def isNumber : Token → Bool
  | num _ => true
  | op _ | neg | lpar | rpar => false

/-- Whether the token is an operator with two operands. -/
def isBinary : Token → Bool
  | op _ => true
  | num _ | neg | lpar | rpar => false

end Token

/-! ## Forests -/

/-- Trees on a stack, the latest one first. -/
abbrev Forest := List Tree

namespace Forest

/-- The programs of the trees, from the earliest one on. -/
def program : Forest → List Token
  | [] => []
  | t :: below => program below ++ t.program

/-- The forest after one more token, if the token finds its operands. -/
def push (forest : Forest) : Token → Option Forest
  | .num literal => some (.num literal :: forest)
  | .neg =>
    match forest with
    | a :: below => some (.neg a :: below)
    | [] => none
  | .op symbol =>
    match forest with
    | b :: a :: below => some (.bin symbol a b :: below)
    | _ => none
  | .lpar | .rpar => none

/-- The forest after a whole token list. -/
def read (forest : Forest) (tokens : List Token) : Option Forest :=
  tokens.foldlM push forest

theorem read_cons (forest : Forest) (t : Token) (tokens : List Token) :
    read forest (t :: tokens) = (forest.push t).bind (read · tokens) :=
  rfl

theorem read_append (forest : Forest) (p q : List Token) :
    read forest (p ++ q) = (read forest p).bind (read · q) := by
  simp [read, List.foldlM_append]

theorem program_push {forest forest' : Forest} {t : Token} (h : forest.push t = some forest') :
    forest'.program = forest.program ++ [t] := by
  cases t with
  | num literal => cases h; rfl
  | neg =>
    rcases forest with _ | ⟨a, below⟩
    · cases h
    · cases h; simp [program, Tree.program]
  | op symbol =>
    rcases forest with _ | ⟨b, _ | ⟨a, below⟩⟩
    · cases h
    · cases h
    · cases h; simp [program, Tree.program]
  | lpar => cases h
  | rpar => cases h

/-- Nothing that was read is lost. -/
theorem program_read {forest forest' : Forest} {tokens : List Token}
    (h : forest.read tokens = some forest') : forest'.program = forest.program ++ tokens := by
  induction tokens generalizing forest with
  | nil => cases h; simp
  | cons t tokens ih =>
    rw [read_cons] at h
    obtain ⟨middle, hpush, hread⟩ := Option.bind_eq_some_iff.mp h
    rw [ih hread, program_push hpush, List.append_assoc, List.singleton_append]

/-- The program of a tree is read as this tree, on top of any forest. -/
theorem read_program (t : Tree) (forest : Forest) : forest.read t.program = some (t :: forest) := by
  induction t generalizing forest with
  | num literal => rfl
  | neg operand ih =>
    rw [Tree.program, read_append, ih]
    rfl
  | bin symbol left right ihl ihr =>
    rw [Tree.program, read_append, read_append, ihl, Option.bind_some, ihr]
    rfl

end Forest

/-- A program belongs to one tree only. -/
theorem Tree.program_injective : Function.Injective Tree.program := by
  intro t u h
  have ht := Forest.read_program t []
  rw [h, Forest.read_program u []] at ht
  cases ht
  rfl

/-! ## Counting -/

theorem Tree.countP_isNumber_program (t : Tree) :
    t.program.countP Token.isNumber = t.program.countP Token.isBinary + 1 := by
  induction t with
  | num literal => rfl
  | neg operand ih => simpa [Tree.program, Token.isNumber, Token.isBinary] using ih
  | bin symbol left right ihl ihr =>
    simp only [Tree.program, List.countP_append, List.countP_singleton, Token.isNumber,
      Token.isBinary, ihl, ihr]
    simp only [Bool.false_eq_true, if_false, if_true]
    omega

/-- A forest has as many trees as its numbers outnumber its binary operators. -/
theorem Forest.countP_isNumber_program (forest : Forest) :
    forest.program.countP Token.isNumber =
      forest.program.countP Token.isBinary + forest.length := by
  induction forest with
  | nil => rfl
  | cons t below ih =>
    have ht := t.countP_isNumber_program
    simp only [Forest.program, List.countP_append, List.length_cons]
    omega

/-! ## Running and reading -/

namespace Machine

/-- A token that the machine takes finds its operands in a forest of the same height. -/
theorem step_push {r : Registry} {stack stack' : List Float} {forest : Forest} {t : Token}
    (hlen : forest.length = stack.length) (h : step r stack t = .ok stack') :
    ∃ forest', forest.push t = some forest' ∧ forest'.length = stack'.length := by
  cases t with
  | num literal =>
    unfold step at h
    cases hread : Scalar.read? literal with
    | none => simp [hread] at h
    | some x =>
      simp only [hread, Except.ok.injEq] at h
      subst h
      exact ⟨_, rfl, by simp [hlen]⟩
  | neg =>
    rcases stack with _ | ⟨x, stack⟩
    · cases h
    · obtain ⟨a, below, rfl⟩ := List.exists_cons_of_length_eq_add_one hlen
      cases h
      exact ⟨_, rfl, by simpa using hlen⟩
  | op symbol =>
    rcases stack with _ | ⟨y, _ | ⟨x, stack⟩⟩
    · cases h
    · cases h
    · rw [step_op] at h
      rcases forest with _ | ⟨b, _ | ⟨a, below⟩⟩
      · simp at hlen
      · simp at hlen
      · cases hop : r.resolve (String.singleton symbol) with
        | error e => rw [hop] at h; cases h
        | ok operation =>
          rw [hop] at h
          cases hval : operation x y with
          | error e => simp only [bind, Except.bind, hval] at h; cases h
          | ok value =>
            simp only [bind, Except.bind, hval] at h
            cases h
            exact ⟨_, rfl, by simpa using hlen⟩
  | lpar => cases h
  | rpar => cases h

/-- What runs can be read, and leaves as many trees as numbers. -/
theorem run_read {r : Registry} {stack stack' : List Float} {forest : Forest}
    {program : List Token} (hlen : forest.length = stack.length)
    (h : run r stack program = .ok stack') :
    ∃ forest', forest.read program = some forest' ∧ forest'.length = stack'.length := by
  induction program generalizing stack forest with
  | nil => cases h; exact ⟨forest, rfl, hlen⟩
  | cons t program ih =>
    rw [run_cons] at h
    cases hstep : step r stack t with
    | error e => rw [hstep] at h; cases h
    | ok middle =>
      rw [hstep] at h
      obtain ⟨forest', hpush, hlen'⟩ := step_push hlen hstep
      obtain ⟨forest'', hread, hlen''⟩ := ih hlen' h
      exact ⟨forest'', by rw [Forest.read_cons, hpush]; exact hread, hlen''⟩

/-- A whole run reads the forest that its stack stands for. -/
theorem exists_read_of_run {r : Registry} {program : List Token} {stack : List Float}
    (h : run r [] program = .ok stack) :
    ∃ forest, Forest.read [] program = some forest ∧ forest.length = stack.length :=
  run_read rfl h

theorem result_of_length_ne_one {stack : List Float} (h : stack.length ≠ 1) :
    result stack = .error (.machine (.malformed stack.length)) := by
  rcases stack with _ | ⟨x, _ | ⟨y, stack⟩⟩
  · rfl
  · exact absurd rfl h
  · rfl

/-- Only the program of a tree has a value. -/
theorem exists_eq_program_of_evaluate {r : Registry} {program : List Token} {v : Float}
    (h : evaluate r program = .ok v) : ∃ t : Tree, program = t.program := by
  unfold evaluate at h
  cases hrun : run r [] program with
  | error e => rw [hrun] at h; cases h
  | ok stack =>
    obtain ⟨forest, hread, hlen⟩ := exists_read_of_run hrun
    have hone : stack.length = 1 := by
      by_contra hne
      have hresult : result stack = .ok v := by rw [hrun] at h; exact h
      rw [result_of_length_ne_one hne] at hresult
      cases hresult
    obtain ⟨t, rfl⟩ := List.length_eq_one_iff.mp (hlen.trans hone)
    have hp := Forest.program_read hread
    exact ⟨t, by simpa [Forest.program] using hp.symm⟩

/-- What is left of a run that takes every token is the surplus of numbers over binary operators. -/
theorem length_add_countP_of_run {r : Registry} {program : List Token} {stack : List Float}
    (h : run r [] program = .ok stack) :
    stack.length + program.countP Token.isBinary = program.countP Token.isNumber := by
  obtain ⟨forest, hread, hlen⟩ := exists_read_of_run h
  have hp := Forest.program_read hread
  have hcount := forest.countP_isNumber_program
  rw [hp] at hcount
  simp only [Forest.program, List.nil_append] at hcount
  omega

/-- The machine gives the program of a tree the value of the tree, or its first
    error, and no other tree has this program. It refuses every token list that
    is no program, and one that it refuses only at the end has the surplus of
    numbers over binary operators left on the stack. -/
theorem evaluate_exact (r : Registry) (program : List Token) :
    (∀ t : Tree, program = t.program →
      evaluate r program = t.evaluate r ∧ ∀ u : Tree, program = u.program → u = t) ∧
    ((∀ t : Tree, program ≠ t.program) → ∃ e, evaluate r program = .error e) ∧
    (∀ stack, run r [] program = .ok stack → (∀ x, result stack ≠ .ok x) →
      ∃ remaining, evaluate r program = .error (.machine (.malformed remaining)) ∧
        remaining + program.countP Token.isBinary = program.countP Token.isNumber) := by
  refine ⟨?_, ?_, ?_⟩
  · rintro t rfl
    exact ⟨evaluate_program r t, fun u hu => (Tree.program_injective hu).symm⟩
  · intro hnone
    cases hvalue : evaluate r program with
    | error e => exact ⟨e, rfl⟩
    | ok v =>
      obtain ⟨t, ht⟩ := exists_eq_program_of_evaluate hvalue
      exact absurd ht (hnone t)
  · intro stack hrun hfail
    have hne : stack.length ≠ 1 := by
      intro hone
      obtain ⟨x, rfl⟩ := List.length_eq_one_iff.mp hone
      exact hfail x rfl
    refine ⟨stack.length, ?_, length_add_countP_of_run hrun⟩
    rw [evaluate, hrun]
    exact result_of_length_ne_one hne

/-- An unknown symbol is the error of its program, a parenthesis is in no
    program, and one number too many is counted. -/
theorem evaluate_exact_refusals :
    evaluate .empty [.num "2", .num "3", .neg, .op '^'] =
      (Tree.bin '^' (.num "2") (.neg (.num "3"))).evaluate .empty ∧
    (∃ e, evaluate .empty [.num "1", .lpar] = .error e) ∧
    evaluate .empty [.num "1", .num "2"] = .error (.machine (.malformed 2)) := by
  refine ⟨((evaluate_exact .empty _).1 (.bin '^' (.num "2") (.neg (.num "3"))) rfl).1, ?_, ?_⟩
  · refine (evaluate_exact .empty [.num "1", .lpar]).2.1 fun t ht => ?_
    have hread := Forest.read_program t []
    rw [← ht] at hread
    cases hread
  · have hrun : run .empty [] [.num "1", .num "2"] = .ok [2, 1] := by decide +kernel
    obtain ⟨remaining, hrefused, hcount⟩ :=
      (evaluate_exact .empty [.num "1", .num "2"]).2.2 [2, 1] hrun (fun x hx => by cases hx)
    rw [hrefused, show remaining = 2 from hcount]

end Machine

end PostfixCalc
