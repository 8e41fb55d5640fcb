import PostfixCalc.Job
import PostfixCalc.Proofs.Refusal

/-!
# What a new operation leaves alone

A computation asks the registry for an operation by its key, and for nothing
else. An expression has no keys but the symbols of its binary operators, which
are among the four. So two registries that agree on these symbols make no
difference to it: the two runs of the machine take each token alike and stop at
the same one. An operation under another alias is never asked for.

Results:
* `Registry.agreeOn_register`: a registration counts for its own alias only.
* `Machine.step_congr`, `Machine.run_congr`: two runs with registries that agree
  go the same way.
* `Expression.evaluateWith_congr`: so do two evaluations of a text.
* `Expression.evaluateWith_extended`: so a new alias changes no expression, and
  no fold under another key.
-/

namespace PostfixCalc

/-! ## Agreement -/

namespace Registry

variable {r r' : Registry} {key : String}

/-- Both know the same operation by the key, or neither knows one. -/
def AgreeOn (r r' : Registry) (key : String) : Prop :=
  ∀ operation, r.resolve key = .ok operation ↔ r'.resolve key = .ok operation

/-- Where neither knows an operation the error is the same, as it names the key. -/
theorem AgreeOn.resolve_eq (h : r.AgreeOn r' key) : r.resolve key = r'.resolve key := by
  cases hr : r.resolve key with
  | ok operation => exact ((h operation).mp hr).symm
  | error e =>
    cases hr' : r'.resolve key with
    | ok operation =>
      rw [(h operation).mpr hr'] at hr
      cases hr
    | error e' => rw [eq_unsupported_of_resolve hr, eq_unsupported_of_resolve hr']

/-- A registration counts for its own alias only. -/
theorem agreeOn_register (r : Registry) {name : String} (operation : Operation)
    (h : normalizeKey key ≠ normalizeKey name) : (r.register name operation).AgreeOn r key := by
  have hlookup : (r.register name operation).entries.lookup (normalizeKey key) =
      r.entries.lookup (normalizeKey key) := put_lookup_ne operation r.entries h
  intro known
  rw [resolve, resolve, hlookup]

/-- The four symbols are in normal form. -/
theorem normalizeKey_of_mem_symbols (h : key ∈ ["+", "-", "*", "/"]) : normalizeKey key = key := by
  have hall : ∀ symbol ∈ ["+", "-", "*", "/"], normalizeKey symbol = symbol := by decide +kernel
  exact hall key h

end Registry

/-! ## Two runs -/

namespace Machine

variable {r r' : Registry}

/-- A token is taken alike, or refused alike, if the registries agree on its
    symbol. -/
theorem step_congr {t : Token}
    (h : ∀ symbol, t = .op symbol → r.AgreeOn r' (String.singleton symbol))
    (stack : List Float) : step r stack t = step r' stack t := by
  cases t with
  | op symbol =>
    rcases stack with _ | ⟨b, _ | ⟨a, below⟩⟩
    · rfl
    · rfl
    · rw [step_op, step_op, (h symbol rfl).resolve_eq]
  | num literal | neg | lpar | rpar => rfl

/-- Two runs go the same way, from any stack, if the registries agree on the
    symbols of the program. -/
theorem run_congr {program : List Token}
    (h : ∀ symbol, .op symbol ∈ program → r.AgreeOn r' (String.singleton symbol))
    (stack : List Float) : run r stack program = run r' stack program := by
  induction program generalizing stack with
  | nil => rfl
  | cons t program ih =>
    have hstep : step r stack t = step r' stack t :=
      step_congr (fun symbol ht => h symbol (ht ▸ List.mem_cons_self ..)) stack
    rw [run_cons, run_cons, hstep]
    cases step r' stack t with
    | error e => rfl
    | ok next => exact ih (fun symbol hmem => h symbol (List.mem_cons_of_mem _ hmem)) next

theorem evaluate_congr {program : List Token}
    (h : ∀ symbol, .op symbol ∈ program → r.AgreeOn r' (String.singleton symbol)) :
    evaluate r program = evaluate r' program := by
  rw [evaluate, evaluate, run_congr h]

end Machine

/-! ## Texts and folds -/

/-- A fold asks for one operation, once. -/
theorem reduce_congr {r r' : Registry} {key : String} (h : r.AgreeOn r' key)
    (operands : List Float) : reduce r key operands = reduce r' key operands := by
  rw [reduce, reduce, h.resolve_eq]

namespace Expression

variable {r r' : Registry} {s : String}

/-- A text is evaluated alike if the registries agree on its binary operators. -/
theorem evaluateWith_congr
    (h : ∀ tokens symbol, tokenize s = .ok tokens → .op symbol ∈ tokens →
      r.AgreeOn r' (String.singleton symbol)) : evaluateWith r s = evaluateWith r' s := by
  rw [evaluateWith, evaluateWith]
  cases hcompile : compile s with
  | error e => rfl
  | ok compiled =>
    obtain ⟨tokens, program⟩ := compiled
    obtain ⟨hlex, hparen⟩ := compile_eq_ok_iff.mp hcompile
    -- the program has no symbols but those of the text
    exact Machine.evaluate_congr fun symbol hmem =>
      h tokens symbol hlex (Postfix.of_mem_ofInfix hparen _ hmem).1

/-- The four symbols are all that a text can ask for. -/
theorem evaluateWith_congr_symbols (h : ∀ key ∈ ["+", "-", "*", "/"], r.AgreeOn r' key)
    (s : String) : evaluateWith r s = evaluateWith r' s := by
  refine evaluateWith_congr fun tokens symbol hlex hmem => h _ ?_
  have hsymbol := ((Token.of_mem_tokenize hlex).2 symbol hmem).1
  simp only [List.mem_cons, List.not_mem_nil, or_false] at hsymbol
  rcases hsymbol with rfl | rfl | rfl | rfl <;> decide

/-- **A new operation disturbs no expression.** Two registries that agree on the
    binary operators of a text give it the same value, or the same error, and
    for this it suffices that they agree on the four symbols. So an operation
    registered under an alias that is none of these changes nothing for any
    text, and for a fold it changes nothing under any other key. -/
theorem evaluateWith_extended :
    (∀ (r r' : Registry) (s : String),
      (∀ tokens symbol, tokenize s = .ok tokens → .op symbol ∈ tokens →
        r.AgreeOn r' (String.singleton symbol)) → evaluateWith r s = evaluateWith r' s) ∧
    (∀ r r' : Registry, (∀ key ∈ ["+", "-", "*", "/"], r.AgreeOn r' key) →
      ∀ s, evaluateWith r s = evaluateWith r' s) ∧
    (∀ (r : Registry) (name : String) (operation : Operation),
      normalizeKey name ∉ ["+", "-", "*", "/"] →
        ∀ s, evaluateWith (r.register name operation) s = evaluateWith r s) ∧
    ∀ (r : Registry) (name : String) (operation : Operation) (key : String),
      normalizeKey key ≠ normalizeKey name →
        ∀ operands, reduce (r.register name operation) key operands = reduce r key operands := by
  refine ⟨fun _ _ _ => evaluateWith_congr, fun _ _ => evaluateWith_congr_symbols,
    fun r name operation hname => evaluateWith_congr_symbols fun key hkey => ?_,
    fun r name operation key hkey => reduce_congr (r.agreeOn_register operation hkey)⟩
  refine r.agreeOn_register operation fun heq => hname ?_
  rwa [← heq, Registry.normalizeKey_of_mem_symbols hkey]

/-- A registry that knows the product only, one with one more word for the sum,
    and one in which the word `add` subtracts. -/
theorem evaluateWith_extended_samples :
    evaluateWith (Registry.empty.register "*" .multiply) "2 * -3" = evaluate "2 * -3" ∧
    evaluateWith (Registry.standard.register " Plus" .add) "1 / (2 - 2)" =
      .error (.arithmetic .divisionByZero) ∧
    evaluateWith (Registry.standard.register "ADD " .subtract) "1 + 2" = .ok 3 ∧
    reduce (Registry.standard.register "ADD " .subtract) "+" [1, 2] = .ok 3 ∧
    reduce (Registry.standard.register "ADD " .subtract) "add" [1, 2] = .ok (-1) := by
  obtain ⟨hoperators, hsymbols, hregister, hreduce⟩ := evaluateWith_extended
  refine ⟨hoperators _ _ _ fun tokens symbol hlex hmem operation => ?_, ?_, ?_, ?_, by
    decide +kernel⟩
  · have htokens : tokenize "2 * -3" = .ok [.num "2", .op '*', .neg, .num "3"] := by decide +kernel
    rw [htokens] at hlex
    obtain rfl := Except.ok.inj hlex
    obtain rfl : symbol = '*' := by simpa using hmem
    have hknown : (Registry.empty.register "*" .multiply).resolve "*" = .ok .multiply := by
      rw [Registry.resolve, Registry.register, Registry.put_lookup_self]
    have hstandard : Registry.standard.resolve "*" = .ok .multiply :=
      Registry.resolve_standard (by simp [Registry.standardEntries])
    show (Registry.empty.register "*" .multiply).resolve "*" = _ ↔
      Registry.standard.resolve "*" = _
    rw [hknown, hstandard]
  · rw [hsymbols _ .standard fun key hkey => Registry.agreeOn_register _ _ ?_]
    · decide +kernel
    · have hall : ∀ key ∈ ["+", "-", "*", "/"], normalizeKey key ≠ normalizeKey " Plus" := by
        decide +kernel
      exact hall key hkey
  · rw [hregister .standard "ADD " .subtract (by decide +kernel)]
    decide +kernel
  · rw [hreduce .standard "ADD " .subtract "+" (by decide +kernel)]
    decide +kernel

end Expression

end PostfixCalc
