import PostfixCalc.Proofs.JsonText
import PostfixCalc.Proofs.Rounding
import PostfixCalc.Request

/-!
# How requests are written

A text is a request if it is the text of a JSON value that has the shape of one:
an object whose known keys stand at most once, or the list of the five fields.
The other keys of an object may have any values. Keys and strings are compared
by the characters that they stand for, however they are escaped, and a number
has the value that it is rounded to.

Results:
* `textOf?_eq_some_iff`: the characters that a string literal stands for.
* `field?_eq_some_iff`: a field is read from the only value of its key.
* `ofValue?_eq_some_iff`: which values have the shape of a request.
* `Request.read_exact`: a text is read as a request exactly if it spells this
  request, and is an error exactly if it spells none.
-/

namespace PostfixCalc

namespace Json

/-! ## Strings -/

/-- The characters that the pieces of a string literal stand for. A code unit is
    a character of its own unless it is a surrogate, and surrogates stand in
    pairs. -/
inductive Decodes : List Piece → List Char → Prop
  | nil : Decodes [] []
  | char {c : Char} {ps : List Piece} {cs : List Char} : Decodes ps cs →
      Decodes (.char c :: ps) (c :: cs)
  | unit {u : ℕ} {ps : List Piece} {cs : List Char} : u < 0xD800 ∨ 0xE000 ≤ u → Decodes ps cs →
      Decodes (.unit u :: ps) (Char.ofNat u :: cs)
  | pair {high low : ℕ} {ps : List Piece} {cs : List Char} : 0xD800 ≤ high → high < 0xDC00 →
      0xDC00 ≤ low → low < 0xE000 → Decodes ps cs →
      Decodes (.unit high :: .unit low :: ps)
        (Char.ofNat (0x10000 + (high - 0xD800) * 0x400 + (low - 0xDC00)) :: cs)

theorem isHighSurrogate_iff {u : ℕ} : isHighSurrogate u = true ↔ 0xD800 ≤ u ∧ u < 0xDC00 := by
  simp [isHighSurrogate]

theorem isLowSurrogate_iff {u : ℕ} : isLowSurrogate u = true ↔ 0xDC00 ≤ u ∧ u < 0xE000 := by
  simp [isLowSurrogate]

theorem of_not_surrogate {u : ℕ} (hhigh : ¬ isHighSurrogate u = true)
    (hlow : ¬ isLowSurrogate u = true) : u < 0xD800 ∨ 0xE000 ≤ u := by
  rw [isHighSurrogate_iff] at hhigh
  rw [isLowSurrogate_iff] at hlow
  omega

/-- A code unit that is not a surrogate stands for itself, whatever follows. -/
theorem textOf?_unit {u : ℕ} (h : u < 0xD800 ∨ 0xE000 ≤ u) (ps : List Piece) :
    textOf? (.unit u :: ps) = (textOf? ps).map (Char.ofNat u :: ·) := by
  have hhigh : ¬ isHighSurrogate u = true := by
    rw [isHighSurrogate_iff]
    omega
  have hlow : ¬ isLowSurrogate u = true := by
    rw [isLowSurrogate_iff]
    omega
  rcases ps with _ | ⟨_ | _, ps⟩ <;> simp [textOf?, hhigh, hlow]

/-- The text of a string literal is what its pieces stand for. -/
theorem textOf?_eq_some_iff {ps : List Piece} {cs : List Char} :
    textOf? ps = some cs ↔ Decodes ps cs := by
  constructor
  · intro h
    fun_induction textOf? ps generalizing cs with
    | case1 =>
      obtain rfl := Option.some.inj h
      exact .nil
    | case2 c ps ih =>
      obtain ⟨ds, hds, rfl⟩ := Option.map_eq_some_iff.mp h
      exact .char (ih hds)
    | case3 u v ps hhigh hlow ih =>
      obtain ⟨ds, hds, rfl⟩ := Option.map_eq_some_iff.mp h
      obtain ⟨hhigh, hhigh'⟩ := isHighSurrogate_iff.mp hhigh
      obtain ⟨hlow, hlow'⟩ := isLowSurrogate_iff.mp hlow
      rw [ofSurrogates]
      exact .pair hhigh hhigh' hlow hlow' (ih hds)
    | case6 u v ps hhigh hlow ih =>
      obtain ⟨ds, hds, rfl⟩ := Option.map_eq_some_iff.mp h
      exact .unit (of_not_surrogate hhigh hlow) (ih hds)
    | case8 u ps _ hsurrogate ih =>
      obtain ⟨ds, hds, rfl⟩ := Option.map_eq_some_iff.mp h
      rw [Bool.or_eq_true, not_or] at hsurrogate
      exact .unit (of_not_surrogate hsurrogate.1 hsurrogate.2) (ih hds)
    -- half of a pair stands alone
    | case4 | case5 | case7 => cases h
  · intro h
    induction h with
    | nil => rfl
    | char _ ih => rw [textOf?, ih, Option.map_some]
    | unit hu _ ih => rw [textOf?_unit hu, ih, Option.map_some]
    | pair hhigh hhigh' hlow hlow' _ ih =>
      rw [textOf?, if_pos (isHighSurrogate_iff.mpr ⟨hhigh, hhigh'⟩),
        if_pos (isLowSurrogate_iff.mpr ⟨hlow, hlow'⟩), ih, Option.map_some, ofSurrogates]

/-! ## Typed values -/

namespace Value

variable {α : Type}

/-- The value is a string that stands for the text. -/
inductive IsText : Value → String → Prop
  | string {ps : List Piece} {s : String} : Decodes ps s.toList → IsText (.string ps) s

/-- The value is a number that is rounded to the finite number. -/
inductive IsNumber : Value → Float → Prop
  | positive {n : Numeral} : n.decimal.value < Binary64.overflow →
      IsNumber (.number false n) n.decimal.toFloat
  | negative {n : Numeral} : n.decimal.value < Binary64.overflow →
      IsNumber (.number true n) (-n.decimal.toFloat)

/-- The value is an array of the elements. -/
inductive IsList (is : Value → α → Prop) : Value → List α → Prop
  | array {vs : List Value} {as : List α} : List.Forall₂ is vs as → IsList is (.array vs) as

/-- The value is an array of rows of numbers. -/
def IsGrid : Value → Grid → Prop := IsList (IsList IsNumber)

/-- The value is `null` in place of a field that is missing. -/
inductive IsOption (is : Value → α → Prop) : Value → Option α → Prop
  | null : IsOption is .null none
  | value {v : Value} {a : α} : is v a → IsOption is v (some a)

theorem text?_eq_some_iff {v : Value} {s : String} : v.text? = some s ↔ IsText v s := by
  constructor
  · intro h
    cases v with
    | string ps =>
      obtain ⟨cs, hcs, rfl⟩ := Option.map_eq_some_iff.mp h
      refine .string ?_
      rw [String.toList_ofList]
      exact textOf?_eq_some_iff.mp hcs
    | _ => cases h
  · rintro ⟨h⟩
    rw [text?, textOf?_eq_some_iff.mpr h, Option.map_some, String.ofList_toList]

theorem float?_eq_some_iff {v : Value} {x : Float} : v.float? = some x ↔ IsNumber v x := by
  constructor
  · intro h
    cases v with
    | number negative n =>
      simp only [float?] at h
      split at h
      · next hfinite =>
        rw [Decimal.isFinite_toFloat_iff] at hfinite
        obtain rfl := Option.some.inj h
        cases negative
        · exact .positive hfinite
        · exact .negative hfinite
      · cases h
    | _ => cases h
  · rintro (h | h) <;> rw [float?, if_pos ((Decimal.isFinite_toFloat_iff _).mpr h)] <;> rfl

end Value

/-- Elements are read one by one. -/
theorem mapM_eq_some_iff {α β : Type} {f : α → Option β} {as : List α} {bs : List β} :
    as.mapM f = some bs ↔ List.Forall₂ (fun a b => f a = some b) as bs := by
  induction as generalizing bs with
  | nil => simp [eq_comm]
  | cons a as ih =>
    simp only [List.mapM_cons, Option.bind_eq_bind, Option.bind_eq_some_iff, ih]
    constructor
    · rintro ⟨b, hb, cs, hcs, h⟩
      obtain rfl := Option.some.inj h
      exact .cons hb hcs
    · rintro (_ | ⟨hb, hcs⟩)
      exact ⟨_, hb, _, hcs, rfl⟩

namespace Value

variable {α : Type} {read : Value → Option α} {is : Value → α → Prop}

/-- A list is read by a reader of its elements. -/
theorem listOf?_eq_some_iff (hread : ∀ v a, read v = some a ↔ is v a) {v : Value} {as : List α} :
    v.listOf? read = some as ↔ IsList is v as := by
  have hforall {vs : List Value} : vs.mapM read = some as ↔ List.Forall₂ is vs as := by
    rw [mapM_eq_some_iff, funext₂ fun v a => propext (hread v a)]
  constructor
  · intro h
    cases v with
    | array vs => exact .array (hforall.mp h)
    | _ => cases h
  · rintro ⟨h⟩
    exact hforall.mpr h

theorem grid?_eq_some_iff {v : Value} {g : Grid} : v.grid? = some g ↔ IsGrid v g := by
  refine listOf?_eq_some_iff fun v row => ?_
  exact listOf?_eq_some_iff fun v x => float?_eq_some_iff

/-- A value that may be `null` is read by a reader of the value. -/
theorem orNull?_eq_some_iff (hread : ∀ v a, read v = some a ↔ is v a) (hnull : read .null = none)
    {v : Value} {o : Option α} : v.orNull? read = some o ↔ IsOption is v o := by
  constructor
  · intro h
    cases v with
    | null =>
      obtain rfl := Option.some.inj h
      exact .null
    | _ =>
      obtain ⟨a, ha, rfl⟩ := Option.map_eq_some_iff.mp h
      exact .value ((hread _ _).mp ha)
  · rintro (_ | h)
    · rfl
    · rw [← hread] at h
      cases v with
      | null => rw [hnull] at h; cases h
      | _ => rw [orNull?, h, Option.map_some]; simp

end Value

end Json

namespace Request

open Json (Blank Decodes Piece Spells Value textOf?_eq_some_iff mapM_eq_some_iff)
open Json.Value (IsText IsNumber IsList IsGrid IsOption text?_eq_some_iff float?_eq_some_iff
  listOf?_eq_some_iff grid?_eq_some_iff orNull?_eq_some_iff)

/-! ## Members and fields -/

/-- The members of an object with their keys decoded. -/
def Keyed : List (List Piece × Value) → List (List Char × Value) → Prop :=
  List.Forall₂ fun m n => Decodes m.1 n.1 ∧ m.2 = n.2

/-- The field that the members give for a key: missing if the key does not stand
    or has `null`. -/
inductive HasField {α : Type} (is : Value → α → Prop) (key : String)
    (members : List (List Char × Value)) : Option α → Prop
  | missing : (∀ m ∈ members, m.1 = key.toList → m.2 = .null) → HasField is key members none
  | given {v : Value} {a : α} : (key.toList, v) ∈ members → is v a →
      HasField is key members (some a)

/-- A key stands at most once. -/
def AtMostOnce (key : String) (members : List (List Char × Value)) : Prop :=
  (members.map Prod.fst).count key.toList ≤ 1

theorem keyed?_eq_some_iff {members : List (List Piece × Value)}
    {named : List (List Char × Value)} : keyed? members = some named ↔ Keyed members named := by
  have hmember (m : List Piece × Value) (n : List Char × Value) :
      ((Json.textOf? m.1).map fun key => (key, m.2)) = some n ↔ Decodes m.1 n.1 ∧ m.2 = n.2 := by
    obtain ⟨key, v⟩ := n
    rw [Option.map_eq_some_iff]
    constructor
    · rintro ⟨cs, hcs, h⟩
      obtain ⟨rfl, rfl⟩ := Prod.mk.inj h
      exact ⟨textOf?_eq_some_iff.mp hcs, rfl⟩
    · rintro ⟨hkey, rfl⟩
      exact ⟨key, textOf?_eq_some_iff.mpr hkey, rfl⟩
  rw [keyed?, mapM_eq_some_iff, Keyed, funext₂ fun m n => propext (hmember m n)]

/-- A field is read from the only value of its key. -/
theorem field?_eq_some_iff {α : Type} {read : Value → Option α} {is : Value → α → Prop}
    (hread : ∀ v a, read v = some a ↔ is v a) (hnull : read .null = none) {key : String}
    {members : List (List Char × Value)} {o : Option α} :
    field? read key members = some o ↔ AtMostOnce key members ∧ HasField is key members o := by
  have hcount : (members.map Prod.fst).count key.toList =
      (members.filter (·.1 = key.toList)).length := by
    rw [List.count, List.countP_map, List.countP_eq_length_filter]
    simp only [Function.comp_def, beq_eq_decide]
  have hmem (m : List Char × Value) :
      m ∈ members.filter (·.1 = key.toList) ↔ m ∈ members ∧ m.1 = key.toList := by simp
  rw [field?, AtMostOnce, hcount]
  generalize members.filter (·.1 = key.toList) = found at hmem
  rcases found with _ | ⟨m, _ | ⟨n, rest⟩⟩
  · have hnone (m : List Char × Value) (hm : m ∈ members) : m.1 ≠ key.toList := fun hkey =>
      List.not_mem_nil ((hmem m).mpr ⟨hm, hkey⟩)
    constructor
    · intro h
      obtain rfl := Option.some.inj h
      exact ⟨by simp, .missing fun m hm hkey => absurd hkey (hnone m hm)⟩
    · rintro ⟨-, _ | ⟨hm, -⟩⟩
      · rfl
      · exact absurd rfl (hnone _ hm)
  · obtain ⟨k, v⟩ := m
    obtain ⟨hm, rfl⟩ := (hmem (k, v)).mp (List.mem_singleton_self _)
    have honly (m : List Char × Value) (hm : m ∈ members) (hkey : m.1 = key.toList) : m.2 = v := by
      rw [List.mem_singleton.mp ((hmem m).mpr ⟨hm, hkey⟩)]
    simp only [orNull?_eq_some_iff hread hnull, List.length_singleton, le_refl, true_and]
    constructor
    · rintro (_ | h)
      · exact .missing honly
      · exact .given hm h
    · rintro (hnone | ⟨hm', h⟩)
      · obtain rfl : v = .null := hnone _ hm rfl
        exact .null
      · obtain rfl := honly _ hm' rfl
        exact .value h
  · have hlength : ¬ (m :: n :: rest).length ≤ 1 := by simp
    simp only [hlength, false_and, reduceCtorEq]

/-! ## Requests -/

/-- The known keys of a request. -/
def keys : List String := ["operation", "numbers", "matrixA", "matrixB", "expression"]

/-- The values that have the shape of the request: an object that gives each
    field under its key, among any other members, or the list of the fields. -/
inductive HasShape (q : Request) : Value → Prop
  | object {members : List (List Piece × Value)} {named : List (List Char × Value)} :
      Keyed members named → (∀ key ∈ keys, AtMostOnce key named) →
      HasField IsText "operation" named q.operation →
      HasField (IsList IsNumber) "numbers" named q.numbers →
      HasField IsGrid "matrixA" named q.matrixA → HasField IsGrid "matrixB" named q.matrixB →
      HasField IsText "expression" named q.expression → HasShape q (.object members)
  | list {operation numbers matrixA matrixB expression : Value} :
      IsOption IsText operation q.operation → IsOption (IsList IsNumber) numbers q.numbers →
      IsOption IsGrid matrixA q.matrixA → IsOption IsGrid matrixB q.matrixB →
      IsOption IsText expression q.expression →
      HasShape q (.array [operation, numbers, matrixA, matrixB, expression])

/-- The text spells the request: it is that of a value of the request's shape. -/
def SpelledBy (q : Request) (s : String) : Prop :=
  ∃ v : Value, v.WrittenAs s.toList ∧ q.HasShape v

section

variable {key : String} {members : List (List Char × Value)} {v : Value}

theorem field?_text_eq_some_iff {o : Option String} : field? Value.text? key members = some o ↔
    AtMostOnce key members ∧ HasField IsText key members o :=
  field?_eq_some_iff (fun _ _ => text?_eq_some_iff) rfl

theorem field?_numbers_eq_some_iff {o : Option (List Float)} :
    field? (Value.listOf? Value.float?) key members = some o ↔
      AtMostOnce key members ∧ HasField (IsList IsNumber) key members o :=
  field?_eq_some_iff (fun _ _ => listOf?_eq_some_iff fun _ _ => float?_eq_some_iff) rfl

theorem field?_grid_eq_some_iff {o : Option Grid} : field? Value.grid? key members = some o ↔
    AtMostOnce key members ∧ HasField IsGrid key members o :=
  field?_eq_some_iff (fun _ _ => grid?_eq_some_iff) rfl

theorem orNull?_text_eq_some_iff {o : Option String} :
    v.orNull? Value.text? = some o ↔ IsOption IsText v o :=
  orNull?_eq_some_iff (fun _ _ => text?_eq_some_iff) rfl

theorem orNull?_numbers_eq_some_iff {o : Option (List Float)} :
    v.orNull? (Value.listOf? Value.float?) = some o ↔ IsOption (IsList IsNumber) v o :=
  orNull?_eq_some_iff (fun _ _ => listOf?_eq_some_iff fun _ _ => float?_eq_some_iff) rfl

theorem orNull?_grid_eq_some_iff {o : Option Grid} :
    v.orNull? Value.grid? = some o ↔ IsOption IsGrid v o :=
  orNull?_eq_some_iff (fun _ _ => grid?_eq_some_iff) rfl

end

/-- A value is read as a request exactly if it has the shape of this request. -/
theorem ofValue?_eq_some_iff {v : Value} {q : Request} : ofValue? v = some q ↔ q.HasShape v := by
  constructor
  · intro h
    unfold ofValue? at h
    split at h
    · simp only [Option.bind_eq_bind, Option.bind_eq_some_iff, keyed?_eq_some_iff,
        field?_text_eq_some_iff, field?_numbers_eq_some_iff, field?_grid_eq_some_iff] at h
      obtain ⟨named, hnamed, _, ⟨honce₁, hoperation⟩, _, ⟨honce₂, hnumbers⟩, _, ⟨honce₃, hA⟩, _,
        ⟨honce₄, hB⟩, _, ⟨honce₅, hexpression⟩, ⟨⟩⟩ := h
      refine .object hnamed ?_ hoperation hnumbers hA hB hexpression
      simp [keys, *]
    · simp only [Option.bind_eq_bind, Option.bind_eq_some_iff, orNull?_text_eq_some_iff,
        orNull?_numbers_eq_some_iff, orNull?_grid_eq_some_iff] at h
      obtain ⟨_, hoperation, _, hnumbers, _, hA, _, hB, _, hexpression, ⟨⟩⟩ := h
      exact .list hoperation hnumbers hA hB hexpression
    · cases h
  · rintro (⟨hnamed, honce, hoperation, hnumbers, hA, hB, hexpression⟩ |
      ⟨hoperation, hnumbers, hA, hB, hexpression⟩)
    · simp only [keys, List.forall_mem_cons] at honce
      obtain ⟨honce₁, honce₂, honce₃, honce₄, honce₅, -⟩ := honce
      simp only [ofValue?, keyed?_eq_some_iff.mpr hnamed,
        field?_text_eq_some_iff.mpr ⟨honce₁, hoperation⟩,
        field?_numbers_eq_some_iff.mpr ⟨honce₂, hnumbers⟩,
        field?_grid_eq_some_iff.mpr ⟨honce₃, hA⟩, field?_grid_eq_some_iff.mpr ⟨honce₄, hB⟩,
        field?_text_eq_some_iff.mpr ⟨honce₅, hexpression⟩, Option.bind_eq_bind, Option.bind_some]
      rfl
    · simp only [ofValue?, orNull?_text_eq_some_iff.mpr hoperation,
        orNull?_numbers_eq_some_iff.mpr hnumbers, orNull?_grid_eq_some_iff.mpr hA,
        orNull?_grid_eq_some_iff.mpr hB, orNull?_text_eq_some_iff.mpr hexpression,
        Option.bind_eq_bind, Option.bind_some]
      rfl

theorem read_eq_ok_iff {s : String} {q : Request} : read s = .ok q ↔ q.SpelledBy s := by
  have hread : read s = .ok q ↔ (Value.read? s.toList).bind ofValue? = some q := by
    rw [read, Option.bind_eq_bind]
    split <;> simp [*]
  rw [hread, Option.bind_eq_some_iff, SpelledBy]
  simp only [Value.read?_eq_some_iff, ofValue?_eq_some_iff]

/-- There is only one error. -/
theorem read_eq_error_iff {s : String} :
    read s = .error (.request .invalidJson) ↔ ∀ q, read s ≠ .ok q := by
  rw [read]
  split <;> simp

/-- **A text is read as a request exactly if it spells this request**, and a
    text that spells none is an error. -/
theorem read_exact (s : String) :
    (∀ q, read s = .ok q ↔ q.SpelledBy s) ∧
      (read s = .error (.request .invalidJson) ↔ ∀ q : Request, ¬ q.SpelledBy s) := by
  refine ⟨fun q => read_eq_ok_iff, ?_⟩
  rw [read_eq_error_iff]
  simp only [ne_eq, read_eq_ok_iff]

/-- A known key may be escaped, and under an unknown key a number may be too
    large and a surrogate may stand alone. -/
example :
    (read "\x7b\"x\": [1e999, \"\\ud800\"], \"\\u0065xpression\": \"1+2\"\x7d").toOption.map
      Request.expression = some (some "1+2") := by
  decide +kernel

end Request

end PostfixCalc
