/-!
# White space

`Text.isBlank` is the Unicode property `White_Space`. Everything typed at the
calculator is cut at it: expressions skip it, numbers are separated by it, and
keys are trimmed of it.

Results:
* `ne_nil_of_mem_words`: a word is not empty.
* `words_intercalate`: words joined by a space are found again.
* `exists_trim_append`, `trim_eq_nil_iff`, `trim_eq_self`: what is trimmed off
  is white space, and nothing is left if all is and all if none is at the ends.
-/

namespace PostfixCalc.Text

/-- The Unicode property `White_Space`, 25 characters in all. -/
def isBlank (c : Char) : Bool :=
  let n := c.toNat
  (0x0009 ≤ n && n ≤ 0x000D) || n == 0x0020 || n == 0x0085 || n == 0x00A0 || n == 0x1680 ||
    (0x2000 ≤ n && n ≤ 0x200A) || n == 0x2028 || n == 0x2029 || n == 0x202F || n == 0x205F ||
    n == 0x3000

/-- Drops the longest end of `cs` on which `p` holds. -/
def dropWhileEnd (p : Char → Bool) (cs : List Char) : List Char :=
  (cs.reverse.dropWhile p).reverse

/-- `cs` without the white space at its two ends. -/
def trim (cs : List Char) : List Char :=
  dropWhileEnd isBlank (cs.dropWhile isBlank)

/-- The maximal runs of characters that are not white space, in order. -/
def words (cs : List Char) : List (List Char) :=
  (cs.splitOnP isBlank).filter (!·.isEmpty)

/-- The pieces between line feeds, in order. A carriage return is white space and stays. -/
def lines (cs : List Char) : List (List Char) :=
  cs.splitOnP (· == '\n')

theorem ne_nil_of_mem_words {w cs : List Char} (h : w ∈ words cs) : w ≠ [] := by
  rintro rfl
  simp [words] at h

/-- White space inside a text separates the words before it from those after it. -/
theorem words_append_cons {c : Char} (hc : isBlank c = true) (before after : List Char) :
    words (before ++ c :: after) = words before ++ words after := by
  rw [words, List.splitOnP_append_cons _ _ hc, List.filter_append]
  rfl

/-- A text without white space is a single word. -/
theorem words_eq_singleton {w : List Char} (hne : w ≠ []) (h : ∀ c ∈ w, isBlank c = false) :
    words w = [w] := by
  rw [words, List.splitOnP_eq_singleton h]
  simp [hne]

/-- Words joined by a space are found again. -/
theorem words_intercalate {ws : List (List Char)} (hne : ∀ w ∈ ws, w ≠ [])
    (h : ∀ w ∈ ws, ∀ c ∈ w, isBlank c = false) : words ([' '].intercalate ws) = ws := by
  induction ws with
  | nil => rfl
  | cons w rest ih =>
    have hw : words w = [w] :=
      words_eq_singleton (hne w (List.mem_cons_self ..)) (h w (List.mem_cons_self ..))
    cases rest with
    | nil => simpa using hw
    | cons v rest =>
      have hrest := ih (fun u hu => hne u (List.mem_cons_of_mem _ hu))
        (fun u hu => h u (List.mem_cons_of_mem _ hu))
      rw [List.intercalate_cons_cons, List.append_assoc, List.singleton_append,
        words_append_cons (by decide), hw, hrest]
      rfl

/-! ## Trimming -/

variable {p : Char → Bool} {cs : List Char}

theorem eq_true_of_mem_takeWhile {c : Char} (h : c ∈ cs.takeWhile p) : p c = true :=
  List.all_eq_true.1 List.all_takeWhile c h

theorem exists_dropWhileEnd_append (p : Char → Bool) (cs : List Char) :
    ∃ tail, (∀ c ∈ tail, p c = true) ∧ dropWhileEnd p cs ++ tail = cs := by
  refine ⟨(cs.reverse.takeWhile p).reverse, ?_, ?_⟩
  · intro c hc
    exact eq_true_of_mem_takeWhile (List.mem_reverse.1 hc)
  · rw [dropWhileEnd, ← List.reverse_append, List.takeWhile_append_dropWhile, List.reverse_reverse]

/-- What is trimmed off is white space. -/
theorem exists_trim_append (cs : List Char) :
    ∃ tail, (∀ c ∈ tail, isBlank c = true) ∧ cs.takeWhile isBlank ++ (trim cs ++ tail) = cs := by
  obtain ⟨tail, hblank, htail⟩ := exists_dropWhileEnd_append isBlank (cs.dropWhile isBlank)
  exact ⟨tail, hblank, by rw [trim, htail, List.takeWhile_append_dropWhile]⟩

theorem eq_false_of_mem_head?_dropWhile {c : Char} (h : c ∈ (cs.dropWhile p).head?) :
    p c = false := by
  have hhead := List.head?_dropWhile_not p cs
  rw [Option.mem_def.1 h] at hhead
  exact hhead

theorem dropWhile_eq_self (h : ∀ c ∈ cs.head?, p c = false) : cs.dropWhile p = cs := by
  cases cs with
  | nil => rfl
  | cons c cs => simp [h c rfl]

/-- A trimmed text does not start with white space. -/
theorem isBlank_of_mem_head?_trim {c : Char} (h : c ∈ (trim cs).head?) : isBlank c = false := by
  obtain ⟨tail, -, happend⟩ := exists_dropWhileEnd_append isBlank (cs.dropWhile isBlank)
  have hdrop : c ∈ (cs.dropWhile isBlank).head? := by
    rw [← happend, List.head?_append]
    simp [show (dropWhileEnd isBlank (cs.dropWhile isBlank)).head? = some c from h]
  exact eq_false_of_mem_head?_dropWhile hdrop

/-- A trimmed text does not end with white space. -/
theorem isBlank_of_mem_getLast?_trim {c : Char} (h : c ∈ (trim cs).getLast?) :
    isBlank c = false := by
  rw [trim, dropWhileEnd, List.getLast?_reverse] at h
  exact eq_false_of_mem_head?_dropWhile h

/-- A text that neither starts nor ends with white space stays as it is. -/
theorem trim_eq_self (hhead : ∀ c ∈ cs.head?, isBlank c = false)
    (hlast : ∀ c ∈ cs.getLast?, isBlank c = false) : trim cs = cs := by
  have hreverse : ∀ c ∈ cs.reverse.head?, isBlank c = false := by
    rwa [List.head?_reverse]
  rw [trim, dropWhile_eq_self hhead, dropWhileEnd, dropWhile_eq_self hreverse,
    List.reverse_reverse]

/-- Nothing is left of white space only. -/
theorem trim_eq_nil_iff : trim cs = [] ↔ ∀ c ∈ cs, isBlank c = true := by
  constructor
  · intro h c hc
    obtain ⟨tail, hblank, happend⟩ := exists_trim_append cs
    rw [h, List.nil_append] at happend
    rw [← happend] at hc
    rcases List.mem_append.1 hc with hc | hc
    · exact eq_true_of_mem_takeWhile hc
    · exact hblank c hc
  · intro h
    cases hhead : (trim cs).head? with
    | none => exact List.head?_eq_none_iff.1 hhead
    | some c =>
      obtain ⟨tail, -, happend⟩ := exists_trim_append cs
      have hc : c ∈ cs := by
        rw [← happend]
        simp [List.mem_of_mem_head? hhead]
      have hblank := isBlank_of_mem_head?_trim hhead
      rw [h c hc] at hblank
      cases hblank

end PostfixCalc.Text
