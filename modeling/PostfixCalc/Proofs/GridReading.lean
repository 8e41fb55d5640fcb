import PostfixCalc.Grid.Text
import PostfixCalc.Proofs.Matrices

/-!
# Reading a typed grid

The rows of a typed grid are its lines with something other than white space on
them, each cut into words. A grid is read exactly if all words are numbers and
all rows are as long as the first. Otherwise the first row from the top that is
not right decides about the error: its first word that is no number, or else its
length. The number of a row counts the rows before it, not the lines.

Line feeds are white space too, so blank lines and spaces are layout in the same
sense: white space may come and go next to white space, and with line feeds in
it at the start or end of a line.

Results:
* `readWords_eq_ok_iff`, `readWords_eq_error_iff`: the outcomes for one row.
* `Grid.readRows_eq_ok_iff`, `Grid.readRows_eq_error_iff`: the outcomes for rows
  of a width.
* `Text.wordRows_insert`: where white space is layout.
* `Grid.read_filledRows`: how a text is read as a grid.
-/

namespace PostfixCalc

/-! ## Words of a text -/

namespace Text

theorem flatten_splitOnP (p : Char → Bool) (cs : List Char) :
    (cs.splitOnP p).flatten = cs.filter (!p ·) := by
  induction cs with
  | nil => rfl
  | cons c cs ih =>
    rw [List.splitOnP_cons_eq_if_modifyHead]
    cases hc : p c with
    | true => simp [hc, ih]
    | false =>
      obtain ⟨w, ws, hws⟩ := List.exists_cons_of_ne_nil (List.splitOnP_ne_nil p cs)
      rw [hws] at ih ⊢
      simpa [hc] using ih

/-- The words hold all that is no white space. -/
theorem flatten_words (cs : List Char) : (words cs).flatten = cs.filter (!isBlank ·) := by
  rw [words, List.flatten_filter_not_isEmpty, flatten_splitOnP]

theorem words_eq_nil_iff {cs : List Char} : words cs = [] ↔ ∀ c ∈ cs, isBlank c = true := by
  have hfilter : words cs = [] ↔ cs.filter (!isBlank ·) = [] := by
    rw [← flatten_words]
    refine ⟨fun h => by rw [h]; rfl, fun h => ?_⟩
    rw [List.flatten_eq_nil_iff] at h
    exact List.eq_nil_iff_forall_not_mem.mpr fun w hw => ne_nil_of_mem_words hw (h w hw)
  rw [hfilter, List.filter_eq_nil_iff]
  simp

variable {blank : List Char}

theorem words_append_blank (h : ∀ c ∈ blank, isBlank c = true) (cs : List Char) :
    words (cs ++ blank) = words cs := by
  rcases blank with _ | ⟨c, blank⟩
  · rw [List.append_nil]
  · rw [words_append_cons (h c (List.mem_cons_self ..)),
      words_eq_nil_iff.mpr fun d hd => h d (List.mem_cons_of_mem _ hd), List.append_nil]

theorem words_blank_append (h : ∀ c ∈ blank, isBlank c = true) (cs : List Char) :
    words (blank ++ cs) = words cs := by
  rcases List.eq_nil_or_concat blank with rfl | ⟨front, c, rfl⟩
  · rfl
  · rw [List.concat_eq_append, List.append_assoc, List.singleton_append,
      words_append_cons (h c (by simp)), words_eq_nil_iff.mpr fun d hd => h d (by simp [hd]),
      List.nil_append]

/-- White space next to white space separates no words that were not separated. -/
theorem words_insert {before after : List Char} (h : ∀ c ∈ blank, isBlank c = true)
    (hgap : (∀ c ∈ before.getLast?, isBlank c = true) ∨ ∀ c ∈ after.head?, isBlank c = true) :
    words (before ++ (blank ++ after)) = words (before ++ after) := by
  rcases hgap with hbefore | hafter
  · rcases List.eq_nil_or_concat before with rfl | ⟨front, c, rfl⟩
    · exact words_blank_append h after
    · have hc : isBlank c = true := hbefore c (by simp)
      rw [List.concat_eq_append, List.append_assoc, List.append_assoc, List.singleton_append,
        List.singleton_append, words_append_cons hc, words_append_cons hc, words_blank_append h]
  · rcases after with _ | ⟨c, after⟩
    · rw [List.append_nil, List.append_nil, words_append_blank h]
    · have hc : isBlank c = true := hafter c rfl
      rw [← List.append_assoc, words_append_cons hc, words_append_cons hc, words_append_blank h]

/-- The lines of a text that hold a character other than white space, cut into words. -/
def filledRows (cs : List Char) : List (List (List Char)) :=
  ((lines cs).filter (·.any (!isBlank ·))).map words

/-- The number of words in the first of these lines, `0` if there is none. -/
def filledWidth (cs : List Char) : ℕ := ((filledRows cs).headD []).length

/-- The white space `blank` is layout between the parts of a text: it is next to
    white space and holds no line feed, or it is at the start or end of a line. -/
structure Loose (before blank after : List Char) : Prop where
  isBlank : ∀ c ∈ blank, isBlank c = true
  gap : ('\n' ∉ blank ∧
      ((∀ c ∈ before.getLast?, Text.isBlank c = true) ∨
        ∀ c ∈ after.head?, Text.isBlank c = true)) ∨
    (∀ c ∈ before.getLast?, c = '\n') ∨ ∀ c ∈ after.head?, c = '\n'

end Text

/-! ## Rows of words -/

namespace Grid

theorem wordRows_eq_filledRows (cs : List Char) : wordRows cs = Text.filledRows cs := by
  have hfilled : ∀ l : List Char, (!(Text.words l).isEmpty) = l.any (!Text.isBlank ·) := by
    intro l
    rw [Bool.eq_iff_iff, Bool.not_eq_true', List.isEmpty_eq_false_iff, Ne, Text.words_eq_nil_iff,
      List.any_eq_true]
    simp
  rw [wordRows, List.filter_map, Text.filledRows]
  congr 1
  exact List.filter_congr fun l _ => hfilled l

/-- A line feed separates the rows before it from those after it. -/
theorem wordRows_append_lineFeed (before after : List Char) :
    wordRows (before ++ '\n' :: after) = wordRows before ++ wordRows after := by
  rw [wordRows, Text.lines, List.splitOnP_append_cons _ _ (by decide), List.map_append,
    List.filter_append]
  rfl

theorem wordRows_append_of_getLast? {before : List Char} (h : ∀ c ∈ before.getLast?, c = '\n')
    (after : List Char) : wordRows (before ++ after) = wordRows before ++ wordRows after := by
  rcases List.eq_nil_or_concat before with rfl | ⟨front, c, rfl⟩
  · rfl
  · obtain rfl : c = '\n' := h c (by simp)
    rw [List.concat_eq_append, List.append_assoc, List.singleton_append, wordRows_append_lineFeed,
      wordRows_append_lineFeed]
    simp [show wordRows [] = [] from rfl]

theorem wordRows_append_of_head? {after : List Char} (h : ∀ c ∈ after.head?, c = '\n')
    (before : List Char) : wordRows (before ++ after) = wordRows before ++ wordRows after := by
  rcases after with _ | ⟨c, after⟩
  · simp [show wordRows [] = [] from rfl]
  · obtain rfl : c = '\n' := h c rfl
    rw [wordRows_append_lineFeed, ← List.nil_append ('\n' :: after), wordRows_append_lineFeed]
    rfl

/-- White space alone has no rows. -/
theorem wordRows_of_blank {blank : List Char} (h : ∀ c ∈ blank, Text.isBlank c = true) :
    wordRows blank = [] := by
  rw [wordRows, List.filter_eq_nil_iff]
  intro row hrow
  obtain ⟨l, hl, rfl⟩ := List.mem_map.mp hrow
  have hwords : Text.words l = [] := by
    refine Text.words_eq_nil_iff.mpr fun c hc => h c ?_
    have hmem := List.mem_flatten_of_mem hl hc
    rw [Text.lines, Text.flatten_splitOnP] at hmem
    exact List.mem_of_mem_filter hmem
  simp [hwords]

/-- A line has at most one row, by its words. -/
theorem wordRows_congr_of_notMem {l l' : List Char} (hl : '\n' ∉ l) (hl' : '\n' ∉ l')
    (hwords : Text.words l = Text.words l') : wordRows l = wordRows l' := by
  have hline : ∀ l : List Char, '\n' ∉ l → Text.lines l = [l] := by
    intro l hl
    refine List.splitOnP_eq_singleton fun c hc => ?_
    simpa using ne_of_mem_of_not_mem hc hl
  rw [wordRows, wordRows, hline l hl, hline l' hl', List.map_singleton, List.map_singleton, hwords]

/-- A text is made of lines up to its last one. -/
theorem exists_last_line (cs : List Char) : ∃ front line, front ++ line = cs ∧
    (∀ c ∈ front.getLast?, c = '\n') ∧ '\n' ∉ line := by
  obtain ⟨line, hline, happend⟩ := Text.exists_dropWhileEnd_append (· != '\n') cs
  refine ⟨_, line, happend, fun c hc => ?_, fun hmem => ?_⟩
  · rw [Text.dropWhileEnd, List.getLast?_reverse] at hc
    simpa using Text.eq_false_of_mem_head?_dropWhile hc
  · exact absurd (hline _ hmem) (by decide)

/-- A text is made of its first line and more lines. -/
theorem exists_first_line (cs : List Char) : ∃ line rest, line ++ rest = cs ∧
    '\n' ∉ line ∧ ∀ c ∈ rest.head?, c = '\n' := by
  refine ⟨cs.takeWhile (· != '\n'), cs.dropWhile (· != '\n'), List.takeWhile_append_dropWhile,
    fun hmem => ?_, fun c hc => ?_⟩
  · exact absurd (Text.eq_true_of_mem_takeWhile hmem) (by decide)
  · simpa using Text.eq_false_of_mem_head?_dropWhile hc

/-- Within a line, white space may come and go next to white space. -/
theorem wordRows_insert_of_notMem {before blank after : List Char}
    (h : ∀ c ∈ blank, Text.isBlank c = true) (hfeed : '\n' ∉ blank)
    (hgap : (∀ c ∈ before.getLast?, Text.isBlank c = true) ∨
      ∀ c ∈ after.head?, Text.isBlank c = true) :
    wordRows (before ++ (blank ++ after)) = wordRows (before ++ after) := by
  obtain ⟨front, left, rfl, hfront, hleft⟩ := exists_last_line before
  obtain ⟨right, rest, rfl, hright, hrest⟩ := exists_first_line after
  have hgap : (∀ c ∈ left.getLast?, Text.isBlank c = true) ∨
      ∀ c ∈ right.head?, Text.isBlank c = true := by
    refine hgap.imp (fun hbefore c hc => hbefore c ?_) fun hafter c hc => hafter c ?_
    · rw [List.getLast?_append, Option.mem_def.mp hc]
      rfl
    · rw [List.head?_append, Option.mem_def.mp hc]
      rfl
  have hline : wordRows (left ++ (blank ++ right)) = wordRows (left ++ right) :=
    wordRows_congr_of_notMem (by simp [hleft, hfeed, hright]) (by simp [hleft, hright])
      (Text.words_insert h hgap)
  calc wordRows (front ++ left ++ (blank ++ (right ++ rest)))
      = wordRows (front ++ ((left ++ (blank ++ right)) ++ rest)) := by simp only [List.append_assoc]
    _ = wordRows (front ++ ((left ++ right) ++ rest)) := by
        rw [wordRows_append_of_getLast? hfront, wordRows_append_of_head? hrest, hline,
          ← wordRows_append_of_head? hrest, ← wordRows_append_of_getLast? hfront]
    _ = wordRows (front ++ left ++ (right ++ rest)) := by simp only [List.append_assoc]

theorem wordRows_blank_append {blank : List Char} (h : ∀ c ∈ blank, Text.isBlank c = true)
    (cs : List Char) : wordRows (blank ++ cs) = wordRows cs := by
  obtain ⟨front, line, rfl, hfront, hline⟩ := exists_last_line blank
  have hspaces : wordRows ([] ++ (line ++ cs)) = wordRows ([] ++ cs) :=
    wordRows_insert_of_notMem (fun c hc => h c (List.mem_append_right _ hc)) hline
      (.inl (by rintro c ⟨⟩))
  rw [List.append_assoc, wordRows_append_of_getLast? hfront,
    wordRows_of_blank fun c hc => h c (List.mem_append_left _ hc)]
  exact hspaces

theorem wordRows_append_blank {blank : List Char} (h : ∀ c ∈ blank, Text.isBlank c = true)
    (cs : List Char) : wordRows (cs ++ blank) = wordRows cs := by
  obtain ⟨line, rest, rfl, hline, hrest⟩ := exists_first_line blank
  have hspaces : wordRows (cs ++ (line ++ [])) = wordRows (cs ++ []) :=
    wordRows_insert_of_notMem (fun c hc => h c (List.mem_append_left _ hc)) hline
      (.inr (by rintro c ⟨⟩))
  rw [← List.append_assoc, wordRows_append_of_head? hrest,
    wordRows_of_blank fun c hc => h c (List.mem_append_right _ hc), List.append_nil]
  simpa using hspaces

/-- White space that is layout has no part in the rows. -/
theorem wordRows_insert {before blank after : List Char} (h : Text.Loose before blank after) :
    wordRows (before ++ (blank ++ after)) = wordRows (before ++ after) := by
  obtain ⟨hblank, ⟨hfeed, hgap⟩ | hbefore | hafter⟩ := h
  · exact wordRows_insert_of_notMem hblank hfeed hgap
  · rw [wordRows_append_of_getLast? hbefore, wordRows_append_of_getLast? hbefore,
      wordRows_blank_append hblank]
  · rw [← List.append_assoc, wordRows_append_of_head? hafter, wordRows_append_of_head? hafter,
      wordRows_append_blank hblank]

end Grid

/-! ## Reading a row -/

/-- All words of the row are numbers. -/
def Numeric (row : List (List Char)) : Prop :=
  ∀ word ∈ row, Scalar.readChars? word ≠ none

theorem readWords_eq_ok_iff {ws : List (List Char)} {xs : List Float} :
    readWords ws = .ok xs ↔ ws.map Scalar.readChars? = xs.map some := by
  induction ws generalizing xs with
  | nil =>
    rw [readWords, Except.ok.injEq, List.map_nil, eq_comm, eq_comm (a := []), List.map_eq_nil_iff]
  | cons w ws ih =>
    rw [readWords, List.map_cons]
    cases hw : Scalar.readChars? w with
    | none =>
      rcases xs with _ | ⟨x, xs⟩ <;> simp
    | some x =>
      rw [map_eq_ok_iff]
      constructor
      · rintro ⟨ys, hys, rfl⟩
        rw [List.map_cons, ih.mp hys]
      · intro h
        obtain ⟨y, ys, rfl, hy, hys⟩ := List.map_eq_cons_iff.mp h.symm
        obtain rfl := Option.some.inj hy
        exact ⟨ys, ih.mpr hys.symm, rfl⟩

theorem length_of_readWords {ws : List (List Char)} {xs : List Float}
    (h : readWords ws = .ok xs) : xs.length = ws.length := by
  simpa using (congrArg List.length (readWords_eq_ok_iff.mp h)).symm

theorem numeric_of_readWords {ws : List (List Char)} {xs : List Float}
    (h : readWords ws = .ok xs) : Numeric ws := by
  intro word hword hnone
  have hmem := List.mem_map_of_mem (f := Scalar.readChars?) hword
  rw [readWords_eq_ok_iff.mp h, hnone] at hmem
  simp at hmem

/-- The first word that is no number is reported. -/
theorem readWords_eq_error_iff {ws : List (List Char)} {e : CalcError} :
    readWords ws = .error e ↔ ∃ before word after, ws = before ++ word :: after ∧
      Numeric before ∧ Scalar.readChars? word = none ∧
      e = .request (.invalidNumber (String.ofList word)) := by
  induction ws with
  | nil =>
    refine ⟨fun h => (by cases h), ?_⟩
    rintro ⟨before, word, after, h, -⟩
    simp at h
  | cons w ws ih =>
    rw [readWords]
    cases hw : Scalar.readChars? w with
    | none =>
      constructor
      · intro h
        exact ⟨[], w, ws, rfl, by simp [Numeric], hw, (Except.error.inj h).symm⟩
      · rintro ⟨_ | ⟨v, before⟩, word, after, hsplit, hbefore, -, rfl⟩
        · rw [(List.cons.inj hsplit).1]
        · rw [← (List.cons.inj hsplit).1] at hbefore
          exact absurd hw (hbefore w (List.mem_cons_self ..))
    | some x =>
      rw [map_eq_error_iff, ih]
      constructor
      · rintro ⟨before, word, after, rfl, hbefore, hword, he⟩
        refine ⟨w :: before, word, after, rfl, List.forall_mem_cons.mpr ⟨by simp [hw], hbefore⟩,
          hword, he⟩
      · rintro ⟨_ | ⟨v, before⟩, word, after, hsplit, hbefore, hword, he⟩
        · rw [(List.cons.inj hsplit).1, hword] at hw
          cases hw
        · exact ⟨before, word, after, (List.cons.inj hsplit).2,
            fun u hu => hbefore u (List.mem_cons_of_mem _ hu), hword, he⟩

theorem exists_readWords {ws : List (List Char)} (h : Numeric ws) : ∃ xs, readWords ws = .ok xs := by
  cases hws : readWords ws with
  | ok xs => exact ⟨xs, rfl⟩
  | error e =>
    obtain ⟨before, word, after, rfl, -, hword, -⟩ := readWords_eq_error_iff.mp hws
    exact absurd hword (h word (by simp))

namespace Grid

/-! ## Reading rows -/

/-- What is wrong with a row: its first word that is no number, and else that it
    is not as long as the first row. -/
inductive Fault (width number : ℕ) (row : List (List Char)) : CalcError → Prop
  | word {before after : List (List Char)} {word : List Char} : row = before ++ word :: after →
      Numeric before → Scalar.readChars? word = none →
      Fault width number row (.request (.invalidNumber (String.ofList word)))
  | width : Numeric row → row.length ≠ width →
      Fault width number row (.shape (.ragged number width row.length))

theorem Fault.not_right {width number : ℕ} {row : List (List Char)} {e : CalcError}
    (h : Fault width number row e) : ¬ (Numeric row ∧ row.length = width) := by
  rintro ⟨hnumeric, hlength⟩
  cases h with
  | word hrow _ hword => exact hnumeric _ (by simp [hrow]) hword
  | width _ hne => exact hne hlength

/-- The width that the first row sets is its own. -/
theorem readRows_none (number : ℕ) (row : List (List Char)) (rest : List (List (List Char))) :
    readRows none number (row :: rest) = readRows (some row.length) number (row :: rest) := by
  cases hrow : readWords row with
  | error e => rw [readRows_cons_of_error hrow, readRows_cons_of_error hrow]
  | ok numbers =>
    rw [readRows_cons_of_ok hrow, readRows_cons_of_ok hrow, Option.getD_none, Option.getD_some,
      length_of_readWords hrow]

/-- A row is right or has a fault. -/
theorem right_or_fault (width number : ℕ) (row : List (List Char)) :
    (Numeric row ∧ row.length = width) ∨ ∃ e, Fault width number row e := by
  cases hrow : readWords row with
  | error e =>
    obtain ⟨before, word, after, hsplit, hbefore, hword, rfl⟩ := readWords_eq_error_iff.mp hrow
    exact .inr ⟨_, .word hsplit hbefore hword⟩
  | ok numbers =>
    by_cases hwidth : row.length = width
    · exact .inl ⟨numeric_of_readWords hrow, hwidth⟩
    · exact .inr ⟨_, .width (numeric_of_readWords hrow) hwidth⟩

variable {width number : ℕ} {row : List (List Char)} {rows : List (List (List Char))}

theorem readRows_cons_of_right (number : ℕ) (rows : List (List (List Char)))
    (h : Numeric row ∧ row.length = width) :
    ∃ numbers, readWords row = .ok numbers ∧ readRows (some width) number (row :: rows) =
      (readRows (some width) (number + 1) rows).map (numbers :: ·) := by
  obtain ⟨numbers, hrow⟩ := exists_readWords h.1
  refine ⟨numbers, hrow, ?_⟩
  rw [readRows_cons_of_ok hrow, Option.getD_some, length_of_readWords hrow, if_pos h.2]

theorem readRows_cons_of_fault {e : CalcError} (rows : List (List (List Char)))
    (h : Fault width number row e) :
    readRows (some width) number (row :: rows) = .error e := by
  cases h with
  | word hsplit hbefore hword =>
    exact readRows_cons_of_error (readWords_eq_error_iff.mpr ⟨_, _, _, hsplit, hbefore, hword, rfl⟩)
  | width hnumeric hne =>
    obtain ⟨numbers, hrow⟩ := exists_readWords hnumeric
    rw [readRows_cons_of_ok hrow, Option.getD_some, length_of_readWords hrow, if_neg hne]

/-- Rows are read if all are right. -/
theorem readRows_eq_ok_iff {g : Grid} :
    readRows (some width) number rows = .ok g ↔
      (∀ row ∈ rows, Numeric row ∧ row.length = width) ∧
        rows.map (·.map Scalar.readChars?) = g.map (·.map some) := by
  induction rows generalizing number g with
  | nil =>
    rw [readRows_nil, Except.ok.injEq, List.map_nil, eq_comm, eq_comm (a := []), List.map_eq_nil_iff]
    simp
  | cons row rows ih =>
    rw [List.forall_mem_cons, List.map_cons]
    rcases right_or_fault width number row with hright | ⟨e, hfault⟩
    · obtain ⟨numbers, hrow, hread⟩ := readRows_cons_of_right number rows hright
      rw [hread, map_eq_ok_iff, readWords_eq_ok_iff.mp hrow]
      constructor
      · rintro ⟨tail, htail, rfl⟩
        obtain ⟨hall, hmap⟩ := ih.mp htail
        exact ⟨⟨hright, hall⟩, by rw [List.map_cons, hmap]⟩
      · rintro ⟨⟨-, hall⟩, hmap⟩
        obtain ⟨first, tail, rfl, hfirst, htail⟩ := List.map_eq_cons_iff.mp hmap.symm
        obtain rfl : first = numbers := List.map_injective_iff.mpr (Option.some_injective _) hfirst
        exact ⟨tail, ih.mpr ⟨hall, htail.symm⟩, rfl⟩
    · rw [readRows_cons_of_fault rows hfault]
      exact ⟨fun h => (by cases h), fun h => absurd h.1.1 hfault.not_right⟩

/-- The first row that is not right decides about the error. -/
theorem readRows_eq_error_iff {e : CalcError} :
    readRows (some width) number rows = .error e ↔ ∃ before row after,
      rows = before ++ row :: after ∧ (∀ r ∈ before, Numeric r ∧ r.length = width) ∧
        Fault width (number + before.length) row e := by
  induction rows generalizing number with
  | nil =>
    refine ⟨fun h => (by cases h), ?_⟩
    rintro ⟨before, row, after, h, -⟩
    simp at h
  | cons row rows ih =>
    have hshift (before : List (List (List Char))) :
        number + 1 + before.length = number + (row :: before).length := by
      rw [List.length_cons]
      omega
    rcases right_or_fault width number row with hright | ⟨e', hfault⟩
    · obtain ⟨numbers, -, hread⟩ := readRows_cons_of_right number rows hright
      rw [hread, map_eq_error_iff, ih]
      constructor
      · rintro ⟨before, bad, after, rfl, hbefore, hbad⟩
        rw [hshift] at hbad
        exact ⟨row :: before, bad, after, rfl, List.forall_mem_cons.mpr ⟨hright, hbefore⟩, hbad⟩
      · rintro ⟨_ | ⟨first, before⟩, bad, after, hsplit, hbefore, hbad⟩
        · obtain ⟨rfl, -⟩ := List.cons.inj hsplit
          exact absurd hright hbad.not_right
        · obtain ⟨rfl, hrest⟩ := List.cons.inj hsplit
          rw [← hshift] at hbad
          exact ⟨before, bad, after, hrest, (List.forall_mem_cons.mp hbefore).2, hbad⟩
    · rw [readRows_cons_of_fault rows hfault]
      constructor
      · intro h
        obtain rfl := Except.error.inj h
        exact ⟨[], row, rows, rfl, by simp, hfault⟩
      · rintro ⟨_ | ⟨first, before⟩, bad, after, hsplit, hbefore, hbad⟩
        · obtain ⟨rfl, -⟩ := List.cons.inj hsplit
          rw [← readRows_cons_of_fault rows hfault, ← readRows_cons_of_fault rows hbad]
          rfl
        · obtain ⟨rfl, -⟩ := List.cons.inj hsplit
          exact absurd (hbefore row (List.mem_cons_self ..)) hfault.not_right

/-! ## Reading a grid -/

/-- The rows of a text are read with the width of the first. -/
theorem read_eq (s : String) :
    Grid.read s =
      readRows (some (Text.filledWidth s.toList)) 1 (Text.filledRows s.toList) := by
  rw [Grid.read, wordRows_eq_filledRows, Text.filledWidth]
  rcases Text.filledRows s.toList with _ | ⟨row, rows⟩
  · rfl
  · rw [readRows_none]
    rfl

theorem length_pos_of_mem_filledRows {cs : List Char} {row : List (List Char)}
    (h : row ∈ Text.filledRows cs) : 0 < row.length := by
  rw [← wordRows_eq_filledRows] at h
  simpa [List.length_pos_iff] using (List.mem_filter.mp h).2

/-- A grid that is read has no rows, or is a matrix of the size of the text. -/
theorem isMatrix_of_read {s : String} {g : Grid} (h : Grid.read s = .ok g) :
    (g = [] ∧ Text.filledRows s.toList = []) ∨
      g.IsMatrix ⟨(Text.filledRows s.toList).length, Text.filledWidth s.toList⟩ := by
  rw [read_eq, readRows_eq_ok_iff, Text.filledWidth] at h
  rw [Text.filledWidth]
  obtain ⟨hall, hmap⟩ := h
  have hpos : ∀ row ∈ Text.filledRows s.toList, 0 < row.length :=
    fun row => length_pos_of_mem_filledRows
  generalize Text.filledRows s.toList = rows at hall hmap hpos ⊢
  have hlength : g.length = rows.length := by simpa using (congrArg List.length hmap).symm
  rcases rows with _ | ⟨first, rows⟩
  · exact .inl ⟨List.eq_nil_of_length_eq_zero hlength, rfl⟩
  · refine .inr ⟨hlength, fun row hrow => ?_, Nat.succ_pos _, hpos first (List.mem_cons_self ..)⟩
    -- each row of the grid is read from a row of the text, and is as long
    have hmem : row.map some ∈ (first :: rows).map (·.map Scalar.readChars?) := by
      rw [hmap]
      exact List.mem_map_of_mem hrow
    obtain ⟨words, hwords, heq⟩ := List.mem_map.mp hmem
    have hsame : words.length = row.length := by simpa using congrArg List.length heq
    exact hsame ▸ (hall words hwords).2

/-- **A text is read as a grid exactly if all words are numbers and all rows are
    as long as the first.** The rows are the lines that are not blank. The grid
    then has these numbers in their order, and is empty or a matrix. Otherwise
    the error is the fault of the first row that has one. White space between
    words, blank lines and the white space at the end of a line have no part
    in it. -/
theorem read_filledRows (s : String) :
    ((∃ g, Grid.read s = .ok g) ↔
      ∀ row ∈ Text.filledRows s.toList, Numeric row ∧ row.length = Text.filledWidth s.toList) ∧
    (∀ g, Grid.read s = .ok g →
      g.map (·.map some) = (Text.filledRows s.toList).map (·.map Scalar.readChars?) ∧
      ((g = [] ∧ Text.filledRows s.toList = []) ∨
        g.shape? = .ok ⟨(Text.filledRows s.toList).length, Text.filledWidth s.toList⟩)) ∧
    (∀ e, Grid.read s = .error e ↔ ∃ before row after,
      Text.filledRows s.toList = before ++ row :: after ∧
      (∀ r ∈ before, Numeric r ∧ r.length = Text.filledWidth s.toList) ∧
        Fault (Text.filledWidth s.toList) (before.length + 1) row e) ∧
    ∀ before blank after : String, s = before ++ after →
      Text.Loose before.toList blank.toList after.toList →
        Grid.read (before ++ blank ++ after) = Grid.read s := by
  have herror : ∀ e, Grid.read s = .error e ↔ ∃ before row after,
      Text.filledRows s.toList = before ++ row :: after ∧
      (∀ r ∈ before, Numeric r ∧ r.length = Text.filledWidth s.toList) ∧
        Fault (Text.filledWidth s.toList) (before.length + 1) row e := by
    intro e
    simp only [Nat.add_comm _ 1]
    rw [read_eq, readRows_eq_error_iff]
  refine ⟨⟨?_, fun hall => ?_⟩, fun g hg => ⟨?_, ?_⟩, herror, ?_⟩
  · rintro ⟨g, hg⟩
    rw [read_eq, readRows_eq_ok_iff] at hg
    exact hg.1
  · cases hread : Grid.read s with
    | ok g => exact ⟨g, rfl⟩
    | error e =>
      obtain ⟨before, row, after, hsplit, -, hfault⟩ := (herror e).mp hread
      exact absurd (hall row (by simp [hsplit])) hfault.not_right
  · rw [read_eq, readRows_eq_ok_iff] at hg
    exact hg.2.symm
  · exact (isMatrix_of_read hg).imp_right shape?_eq_ok_iff_isMatrix.mpr
  · rintro before blank after rfl hloose
    rw [Grid.read, Grid.read, String.toList_append, String.toList_append, String.toList_append,
      List.append_assoc, wordRows_insert hloose]

/-- Blank lines, carriage returns and spaces around a matrix; a word that is no
    number in a row that is too long as well; and a row that is too short before
    it. -/
theorem read_filledRows_samples :
    (Grid.read "1 2\n3 -.5" = .ok [[1, 2], [3, -0.5]] ∧
      Grid.shape? [[1, 2], [3, -0.5]] = .ok ⟨2, 2⟩ ∧
      Grid.read ("1 2" ++ "\t\r\n \r" ++ "\n3 -.5") = Grid.read "1 2\n3 -.5") ∧
    (∃ before row after, Text.filledRows "1 2\n\n3 x 4".toList = before ++ row :: after ∧
      (∀ r ∈ before, Numeric r ∧ r.length = 2) ∧
        Fault 2 (before.length + 1) row (.request (.invalidNumber "x"))) ∧
    ∃ before row after, Text.filledRows "1 2\n\n3\n4 x".toList = before ++ row :: after ∧
      (∀ r ∈ before, Numeric r ∧ r.length = 2) ∧
        Fault 2 (before.length + 1) row (.shape (.ragged 2 2 1)) := by
  have hread : Grid.read "1 2\n3 -.5" = .ok [[1, 2], [3, -0.5]] := by decide +kernel
  obtain ⟨-, hgrid, -, hlayout⟩ := read_filledRows "1 2\n3 -.5"
  obtain ⟨-, -, hword, -⟩ := read_filledRows "1 2\n\n3 x 4"
  obtain ⟨-, -, hwidth, -⟩ := read_filledRows "1 2\n\n3\n4 x"
  refine ⟨⟨hread, ?_, hlayout _ _ _ rfl ⟨by simp [Text.isBlank], .inr (.inr (by simp))⟩⟩,
    (hword _).mp (by decide +kernel), (hwidth _).mp (by decide +kernel)⟩
  exact (hgrid _ hread).2.resolve_left (by simp)

end Grid

end PostfixCalc
