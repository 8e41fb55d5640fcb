import PostfixCalc.Text.CaseTable

/-!
# Lower case

The full lower-case mapping of Unicode: one character becomes one character,
except that U+0130 becomes two and a capital sigma depends on its place in the
word. Keys are compared in lower case.

Results:
* `lower_eq_self`: a text of characters that have no lower case of their own is
  not changed.
-/

namespace PostfixCalc.Text

/-- Whether a code point lies in one of the ranges. -/
def inRanges (ranges : List (Nat × Nat)) (n : Nat) : Bool :=
  ranges.any fun r => r.1 ≤ n && n ≤ r.2

/-- The Unicode property `Cased`. -/
def isCased (c : Char) : Bool := inRanges casedRanges c.toNat

/-- The Unicode property `Case_Ignorable`. -/
def isCaseIgnorable (c : Char) : Bool := inRanges caseIgnorableRanges c.toNat

/-- The code point of the simple lower case. -/
def lowerCode (n : Nat) : Nat :=
  match lowerRanges.find? (·.covers n) with
  | some r => ((n : Int) + r.shift).toNat
  | none => n

/-- The lower case of a character, apart from its place in a word. -/
def lowerChar (c : Char) : List Char :=
  if c = 'İ' then ['i', '\u0307'] else [Char.ofNat (lowerCode c.toNat)]

/-- Whether the first character that is not case-ignorable is cased. -/
def meetsCased (cs : List Char) : Bool :=
  (cs.dropWhile isCaseIgnorable).head?.any isCased

/-- A capital sigma ends a word if a cased character comes before it, and none
    after it, both times apart from case-ignorable ones. `before` lists what
    precedes, nearest first. -/
def lowerSigma (before after : List Char) : Char :=
  if meetsCased before && !meetsCased after then 'ς' else 'σ'

/-- The lower case of `cs`, where `before` lists what precedes, nearest first. -/
def lowerAfter (before : List Char) : List Char → List Char
  | [] => []
  | c :: cs =>
    (if c = 'Σ' then [lowerSigma before cs] else lowerChar c) ++ lowerAfter (c :: before) cs

/-- The lower case of a text. -/
def lower (cs : List Char) : List Char := lowerAfter [] cs

theorem lowerAfter_eq_self {before cs : List Char} (h : ∀ c ∈ cs, c ≠ 'Σ' ∧ lowerChar c = [c]) :
    lowerAfter before cs = cs := by
  induction cs generalizing before with
  | nil => rfl
  | cons c cs ih =>
    have hc := h c (List.mem_cons_self ..)
    rw [lowerAfter, ih fun d hd => h d (List.mem_cons_of_mem _ hd)]
    simp [hc.1, hc.2]

/-- A text without characters that have a lower case of their own is not changed. -/
theorem lower_eq_self {cs : List Char} (h : ∀ c ∈ cs, c ≠ 'Σ' ∧ lowerChar c = [c]) :
    lower cs = cs :=
  lowerAfter_eq_self h

end PostfixCalc.Text
