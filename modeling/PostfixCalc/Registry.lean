import PostfixCalc.Error
import PostfixCalc.Text.Blank
import PostfixCalc.Text.Lowercase

/-!
# Operations and their names

A `Registry` knows operations on two numbers by their aliases, which are
compared without the white space around them and in lower case. Its entries are
kept in increasing order of the normalised alias, each once; registering an
alias again replaces its operation.

Results:
* `put_lookup_self`, `put_lookup_ne`: after `put`, the key has the new operation
  and every other key keeps its own.
* `resolve_standard`: the four operations are known by all their aliases.
-/

namespace PostfixCalc

/-! ## Operations -/

/-- An operation on two numbers, which may have no result. -/
abbrev Operation := Float → Float → Except ArithmeticError Float

namespace Operation

/-- The sum. -/
def add : Operation := fun a b => .ok (a + b)

/-- The difference. -/
def subtract : Operation := fun a b => .ok (a - b)

/-- The product. -/
def multiply : Operation := fun a b => .ok (a * b)

/-- The quotient. There is none by a zero of either sign. -/
def divide : Operation := fun a b => if b == 0 then .error .divisionByZero else .ok (a / b)

end Operation

/-! ## The registry -/

/-- The form in which aliases and keys are compared. -/
def normalizeKey (key : String) : String :=
  String.ofList (Text.lower (Text.trim key.toList))

/-- Operations by normalised alias, in increasing order. -/
structure Registry where
  entries : List (String × Operation)

namespace Registry

/-- No operation is known. -/
def empty : Registry := ⟨[]⟩

/-- Puts a key into entries that are in increasing order, in place of the same key. -/
def put (key : String) (operation : Operation) :
    List (String × Operation) → List (String × Operation)
  | [] => [(key, operation)]
  | entry :: rest =>
    if key = entry.1 then (key, operation) :: rest
    else if key < entry.1 then (key, operation) :: entry :: rest
    else entry :: put key operation rest

theorem put_lookup_self (key : String) (operation : Operation)
    (entries : List (String × Operation)) :
    (put key operation entries).lookup key = some operation := by
  induction entries with
  | nil => simp [put]
  | cons entry rest ih =>
    rw [put]
    split
    · simp
    · split
      · simp
      · next hne _ => rw [List.lookup_cons, beq_false_of_ne hne]; exact ih

theorem put_lookup_ne {key other : String} (operation : Operation)
    (entries : List (String × Operation)) (h : other ≠ key) :
    (put key operation entries).lookup other = entries.lookup other := by
  have hbeq : (other == key) = false := beq_false_of_ne h
  induction entries with
  | nil => simp [put, List.lookup_cons, hbeq]
  | cons entry rest ih =>
    rw [put]
    split
    · next heq =>
      subst heq
      rw [List.lookup_cons, List.lookup_cons, hbeq]
    · split
      · simp [List.lookup_cons, hbeq]
      · rw [List.lookup_cons, List.lookup_cons, ih]

/-- Registers an operation under an alias; the last registration counts. -/
def register (r : Registry) (name : String) (operation : Operation) : Registry :=
  ⟨put (normalizeKey name) operation r.entries⟩

/-- The operation known by `key`. The error names the key as it was given. -/
def resolve (r : Registry) (key : String) : Except CalcError Operation :=
  match r.entries.lookup (normalizeKey key) with
  | some operation => .ok operation
  | none => .error (.unsupported key)

theorem eq_unsupported_of_resolve {r : Registry} {key : String} {e : CalcError}
    (h : r.resolve key = .error e) : e = .unsupported key := by
  unfold resolve at h
  split at h
  · cases h
  · exact (Except.error.inj h).symm

/-- The normalised aliases, in increasing order of their code points. -/
def aliases (r : Registry) : List String :=
  r.entries.map (·.1)

/-- The aliases of the four operations, a symbol and a word for each. -/
def standardEntries : List (String × Operation) :=
  [("+", .add), ("add", .add), ("-", .subtract), ("subtract", .subtract), ("*", .multiply),
    ("multiply", .multiply), ("/", .divide), ("divide", .divide)]

/-- The four operations. -/
def standard : Registry :=
  standardEntries.foldl (fun r entry => r.register entry.1 entry.2) empty

/-- The four operations are known by all their aliases. -/
theorem resolve_standard {key : String} {operation : Operation}
    (h : (key, operation) ∈ standardEntries) : standard.resolve key = .ok operation := by
  have hnormal : ∀ name ∈ standardEntries.map Prod.fst, normalizeKey name = name := by
    decide +kernel
  have hentries : standard.entries =
      [("*", .multiply), ("+", .add), ("-", .subtract), ("/", .divide), ("add", .add),
        ("divide", .divide), ("multiply", .multiply), ("subtract", .subtract)] := rfl
  have hkey : key ∈ standardEntries.map Prod.fst := List.mem_map_of_mem h
  rw [resolve, hnormal key hkey, hentries]
  simp only [standardEntries, List.mem_cons, Prod.mk.injEq, List.not_mem_nil, or_false] at h
  rcases h with ⟨rfl, rfl⟩ | ⟨rfl, rfl⟩ | ⟨rfl, rfl⟩ | ⟨rfl, rfl⟩ | ⟨rfl, rfl⟩ | ⟨rfl, rfl⟩ |
    ⟨rfl, rfl⟩ | ⟨rfl, rfl⟩ <;> rfl

/-- The four symbols and their words have the same operations. -/
theorem exists_resolve_standard {symbol : Char} {word : String}
    (h : (symbol, word) ∈ [('+', "add"), ('-', "subtract"), ('*', "multiply"), ('/', "divide")]) :
    ∃ operation, standard.resolve (String.singleton symbol) = .ok operation ∧
      standard.resolve word = .ok operation := by
  simp only [List.mem_cons, Prod.mk.injEq, List.not_mem_nil, or_false] at h
  rcases h with ⟨rfl, rfl⟩ | ⟨rfl, rfl⟩ | ⟨rfl, rfl⟩ | ⟨rfl, rfl⟩
  · exact ⟨.add, resolve_standard (by simp [standardEntries]),
      resolve_standard (by simp [standardEntries])⟩
  · exact ⟨.subtract, resolve_standard (by simp [standardEntries]),
      resolve_standard (by simp [standardEntries])⟩
  · exact ⟨.multiply, resolve_standard (by simp [standardEntries]),
      resolve_standard (by simp [standardEntries])⟩
  · exact ⟨.divide, resolve_standard (by simp [standardEntries]),
      resolve_standard (by simp [standardEntries])⟩

end Registry

end PostfixCalc
