import PostfixCalc.Job
import PostfixCalc.Proofs.Matrices
import PostfixCalc.Proofs.ReadBack

/-!
# Matrices read back

A matrix is shown with its rows on lines and its cells as words. The text of a
cell is one word, so that a line has the words of its row, none of them merged,
and is not blank. It holds no line feed either, so that the lines are the rows.
A grid without rows or with an empty row would not come back, but a matrix has
neither.

Results:
* `Grid.lines_text`, `Grid.words_rowChars`: the lines and words of a matrix
  that is shown.
* `Grid.readRows_chars`: rows of one length are read cell by cell.
* `GridOperation.exists_isMatrix_of_apply`: the result of an operation is a
  matrix.
* `Grid.read_answer_text`: a matrix that is shown is read back.
-/

namespace PostfixCalc

namespace Grid

variable {g : Grid}

/-! ## The text of a matrix -/

/-- How a row is shown. -/
def rowChars (row : List Float) : List Char := [' '].intercalate (row.map Scalar.chars)

theorem toList_text (g : Grid) : g.text.toList = ['\n'].intercalate (g.map rowChars) := by
  have hrow : ∀ row : List Float,
      (" ".intercalate (row.map Scalar.text)).toList = rowChars row := by
    intro row
    rw [String.toList_intercalate, List.map_map, rowChars]
    congr 2
    funext x
    exact String.toList_ofList
  rw [text, String.toList_intercalate, List.map_map]
  congr 2
  funext row
  exact hrow row

/-- The words of a row are the texts of its cells. -/
theorem words_rowChars (row : List Float) : Text.words (rowChars row) = row.map Scalar.chars := by
  refine Text.words_intercalate ?_ ?_ <;> intro w hw <;> obtain ⟨x, -, rfl⟩ := List.mem_map.mp hw
  · exact Scalar.chars_ne_nil x
  · exact Scalar.isBlank_of_mem_chars x

/-- A row is shown on one line. -/
theorem lineFeed_notMem_rowChars (row : List Float) : '\n' ∉ rowChars row := by
  have hcell : ∀ x, '\n' ∉ Scalar.chars x := by
    intro x hmem
    have hblank := Scalar.isBlank_of_mem_chars x _ hmem
    cases hblank
  unfold rowChars
  induction row with
  | nil => simp
  | cons x row ih =>
    cases row with
    | nil => simpa using hcell x
    | cons y row =>
      rw [List.map_cons, List.map_cons, List.intercalate_cons_cons, ← List.map_cons]
      simp only [List.mem_append, not_or]
      exact ⟨⟨hcell x, by decide⟩, ih⟩

/-- The lines of a grid with rows are its rows. -/
theorem lines_text (h : g ≠ []) : Text.lines g.text.toList = g.map rowChars := by
  have hlines : ∀ l ∈ g.map rowChars, '\n' ∉ l := by
    intro l hl
    obtain ⟨row, -, rfl⟩ := List.mem_map.mp hl
    exact lineFeed_notMem_rowChars row
  have hne : g.map rowChars ≠ [] := by simpa using h
  rw [toList_text]
  exact List.splitOn_intercalate '\n' hlines hne

/-- No row is taken for a blank line if none is empty. -/
theorem wordRows_text (h : g ≠ []) (hrow : ∀ row ∈ g, row ≠ []) :
    wordRows g.text.toList = g.map (·.map Scalar.chars) := by
  have hwords : (g.map rowChars).map Text.words = g.map (·.map Scalar.chars) := by
    rw [List.map_map]
    exact List.map_congr_left fun row _ => words_rowChars row
  rw [wordRows, lines_text h, hwords, List.filter_eq_self]
  intro words hmem
  obtain ⟨row, hr, rfl⟩ := List.mem_map.mp hmem
  simpa using hrow row hr

/-! ## Reading it -/

theorem readWords_chars (row : List Float) : readWords (row.map Scalar.chars) = .ok row := by
  rw [readWords_map Scalar.readChars?_chars, List.map_id']

/-- Rows of the width asked for are read cell by cell. -/
theorem readRows_chars {width : ℕ} (h : ∀ row ∈ g, row.length = width) (number : ℕ) :
    readRows (some width) number (g.map (·.map Scalar.chars)) = .ok g := by
  induction g generalizing number with
  | nil => rfl
  | cons row g ih =>
    have hrow := h row (List.mem_cons_self ..)
    have hrest := ih (fun r hr => h r (List.mem_cons_of_mem _ hr)) (number + 1)
    rw [List.map_cons, readRows_cons_of_ok (readWords_chars row), Option.getD_some, if_pos hrow,
      hrest]
    rfl

/-- The first row sets the width that all others have. -/
theorem IsMatrix.readRows_chars {s : Shape} (h : g.IsMatrix s) (number : ℕ) :
    readRows none number (g.map (·.map Scalar.chars)) = .ok g := by
  obtain ⟨row, rest, rfl⟩ := List.exists_cons_of_length_pos (h.rows ▸ h.rows_pos)
  have hwidth : row.length = s.columns := h.columns row (List.mem_cons_self ..)
  have hrest : ∀ other ∈ rest, other.length = row.length := by
    intro other hother
    rw [hwidth, h.columns other (List.mem_cons_of_mem _ hother)]
  rw [List.map_cons, readRows_cons_of_ok (readWords_chars row), Option.getD_none, if_pos rfl,
    Grid.readRows_chars hrest]
  rfl

theorem IsMatrix.read_text {s : Shape} (h : g.IsMatrix s) : Grid.read g.text = .ok g := by
  have hne : g ≠ [] := List.ne_nil_of_length_pos (h.rows ▸ h.rows_pos)
  have hrow : ∀ row ∈ g, row ≠ [] := fun row hr =>
    List.ne_nil_of_length_pos (h.columns row hr ▸ h.columns_pos)
  rw [Grid.read, wordRows_text hne hrow, h.readRows_chars]

end Grid

/-! ## Results of operations -/

/-- The result of an operation is a matrix. -/
theorem GridOperation.exists_isMatrix_of_apply {operation : GridOperation} {a b c : Grid}
    (h : operation.apply a b = .ok c) : ∃ s, c.IsMatrix s := by
  rcases a.exists_defect_or_isMatrix with ⟨e, ha⟩ | ⟨left, ha⟩
  · rw [apply_of_defect_left operation ha] at h
    cases h
  rcases b.exists_defect_or_isMatrix with ⟨e, hb⟩ | ⟨right, hb⟩
  · rw [apply_of_defect_right operation ha hb] at h
    cases h
  rw [apply_of_isMatrix operation ha hb] at h
  split_ifs at h with hfits
  cases h
  cases operation with
  | add =>
    obtain rfl : left = right := by simpa [fits] using hfits
    exact ⟨left, Grid.isMatrix_addCells ha hb⟩
  | multiply => exact ⟨_, Grid.isMatrix_multiplyCells ha hb⟩

/-- A job has a grid as result only if it combines two grids. -/
theorem Job.exists_apply_of_runWith {r : Registry} {job : Job} {c : Grid}
    (h : job.runWith r = .ok (.grid c)) :
    ∃ (operation : GridOperation) (a b : Grid), operation.apply a b = .ok c := by
  cases job with
  | reduce key operands =>
    obtain ⟨x, -, hx⟩ := map_eq_ok_iff.mp h
    cases hx
  | expression text =>
    obtain ⟨x, -, hx⟩ := map_eq_ok_iff.mp h
    cases hx
  | combine key a b =>
    obtain ⟨operation, -, hrun⟩ := bind_eq_ok_iff.mp h
    obtain ⟨d, happly, hd⟩ := bind_eq_ok_iff.mp hrun
    cases hd
    exact ⟨operation, a, b, mapError_eq_ok_iff.mp happly⟩

/-- **A matrix that is shown is read back**, cell for cell and bit for bit, and
    so is the matrix that a job has as result. Where a cell is no number, it is
    no number again. -/
theorem Grid.read_answer_text :
    (∀ (g : Grid) (s : Shape), g.shape? = .ok s → Grid.read (Answer.grid g).text = .ok g) ∧
    ∀ (r : Registry) (job : Job) (c : Grid), job.runWith r = .ok (.grid c) →
      (∃ s, c.shape? = .ok s) ∧ Grid.read (Answer.grid c).text = .ok c := by
  constructor
  · intro g s hshape
    exact (shape?_eq_ok_iff_isMatrix.mp hshape).read_text
  · intro r job c hrun
    obtain ⟨operation, a, b, happly⟩ := Job.exists_apply_of_runWith hrun
    obtain ⟨s, hc⟩ := GridOperation.exists_isMatrix_of_apply happly
    exact ⟨⟨s, shape?_eq_ok_iff_isMatrix.mpr hc⟩, hc.read_text⟩

/-- The zero of sign minus, the smallest number, an infinity and what is no
    number, and a product of a column and a row. -/
theorem Grid.read_answer_text_samples :
    (let g : Grid := [[-0.0, 5e-324], [Scalar.infinity, Scalar.notANumber]];
      g.shape? = .ok ⟨2, 2⟩ ∧ Grid.read (Answer.grid g).text = .ok g) ∧
    ∃ c, (Job.combine "*" [[1], [2]] [[0.5, -3]]).run = .ok (.grid c) ∧
      c.shape? = .ok ⟨2, 2⟩ ∧ Grid.read (Answer.grid c).text = .ok c := by
  let job : Job := .combine "*" [[1], [2]] [[0.5, -3]]
  have hrun : job.run = .ok (.grid (multiplyCells [[1], [2]] [[0.5, -3]] 2)) := rfl
  have hread := (read_answer_text.2 .standard job _ hrun).2
  exact ⟨⟨rfl, read_answer_text.1 _ ⟨2, 2⟩ rfl⟩, _, hrun, rfl, hread⟩

end PostfixCalc
