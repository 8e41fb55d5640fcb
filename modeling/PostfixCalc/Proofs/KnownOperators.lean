import PostfixCalc.Proofs.GridReading
import PostfixCalc.Proofs.Ownership
import PostfixCalc.Proofs.Refusal
import PostfixCalc.Proofs.Registration

/-!
# The operators of the window are known

The window only offers operations that exist: the aliases of the four on
numbers, and the symbols of the two on matrices. So no evaluation can meet an
unknown one. And a grid that could be read has rows of one length, so a row of
another length is reported while the text is read, before any operation.

Results:
* `Grid.isRectangular_of_read`: a grid that is read has no rows, or is a matrix.
* `GridOperation.not_ragged_of_apply`: the operations on such grids do not
  complain of a row.
* `Window.Known.perform`: what the window offers keeps the operators known.
* `Window.Known.outcome_error`: what an evaluation can fail with.
* `Window.operators_known`: so in every run no operation is unsupported, and
  rows of different lengths are found by reading.
-/

namespace PostfixCalc

/-! ## Grids that are read -/

namespace Grid

/-- There are no rows, or the grid is a matrix. -/
def IsRectangular (g : Grid) : Prop :=
  g = [] ∨ ∃ s, g.IsMatrix s

/-- A grid that is read has rows of one length, and none is empty. -/
theorem isRectangular_of_read {s : String} {g : Grid} (h : Grid.read s = .ok g) :
    g.IsRectangular :=
  (isMatrix_of_read h).imp And.left fun hmatrix => ⟨_, hmatrix⟩

/-- Reading fails at a word or at a row. -/
theorem error_of_read {s : String} {e : CalcError} (h : Grid.read s = .error e) :
    (∃ word, e = .request (.invalidNumber word)) ∨
      ∃ row expected found, e = .shape (.ragged row expected found) := by
  rw [read_eq, readRows_eq_error_iff] at h
  obtain ⟨before, row, after, -, -, hfault⟩ := h
  cases hfault with
  | word => exact .inl ⟨_, rfl⟩
  | width => exact .inr ⟨_, _, _, rfl⟩

end Grid

/-- An operation on grids that are read complains of an empty one or of the
    shapes, but not of a row. -/
theorem GridOperation.not_ragged_of_apply {operation : GridOperation} {a b : Grid} {e : ShapeError}
    (ha : a.IsRectangular) (hb : b.IsRectangular) (h : operation.apply a b = .error e)
    (row expected found : ℕ) : e ≠ .ragged row expected found := by
  have hshape {g : Grid} (hg : g.IsRectangular) (h : g.shape? = .error e) : e = .empty := by
    rcases hg with rfl | ⟨s, hs⟩
    · exact (Except.error.inj h).symm
    · rw [Grid.shape?_eq_ok_iff_isMatrix.mpr hs] at h
      cases h
  rcases bind_eq_error_iff.mp h with hleft | ⟨left, -, h⟩
  · rw [hshape ha hleft]
    exact ShapeError.noConfusion
  rcases bind_eq_error_iff.mp h with hright | ⟨right, -, h⟩
  · rw [hshape hb hright]
    exact ShapeError.noConfusion
  split at h
  · cases h
  · rw [← Except.error.inj h]
    exact ShapeError.noConfusion

/-! ## Known operators -/

/-- The operator is listed, and the one on matrices is one of the two symbols. -/
structure Window.Known (w : Window) : Prop where
  operator : w.operator ∈ Registry.standard.aliases
  gridOperator : w.gridOperator = "+" ∨ w.gridOperator = "*"

/-- The action is one that the window offers. -/
def Action.IsOffered (a : Action) : Prop :=
  ∀ key, a = .chooseOperator key → key ∈ Registry.standard.aliases

namespace Window

variable {w : Window}

theorem known_initial : initial.Known := ⟨by decide +kernel, .inl rfl⟩

/-- The actions of a user are offered. -/
theorem isOffered_of_mem {i : Input} {q : Record} (h : q ∈ w.records (w.actions i)) :
    q.action.IsOffered := by
  cases causes_of_mem h with
  | pick _ hkey =>
    intro key hpick
    cases hpick
    exact hkey
  | _ =>
    intro key hpick
    cases hpick

namespace Known

/-- The operator is that of before, the default or the one chosen. -/
theorem perform (h : w.Known) {a : Action} (ha : a.IsOffered) : (w.perform a).Known := by
  constructor
  · by_cases hmay : Record.MayChange ⟨w, a⟩ .operator
    · rcases hmay with rfl | ⟨key, rfl⟩
      · exact known_initial.operator
      · exact ha key rfl
    · have hkeep : (w.perform a).operator = w.operator := Record.part_perform ⟨w, a⟩ hmay
      rw [hkeep]
      exact h.operator
  · by_cases hmay : Record.MayChange ⟨w, a⟩ .gridOperator
    · rcases hmay with rfl | ⟨operation, rfl⟩
      · exact known_initial.gridOperator
      · cases operation
        · exact .inl rfl
        · exact .inr rfl
    · have hkeep : (w.perform a).gridOperator = w.gridOperator := Record.part_perform ⟨w, a⟩ hmay
      rw [hkeep]
      exact h.gridOperator

/-- Actions in a row keep the operators known all the way. -/
theorem foldl (h : w.Known) {as : List Action} (has : ∀ a ∈ as, a.IsOffered) :
    (as.foldl Window.perform w).Known ∧ ∀ q ∈ w.records as, q.before.Known := by
  induction as generalizing w with
  | nil => exact ⟨h, by simp [records]⟩
  | cons a as ih =>
    obtain ⟨hlast, hall⟩ := ih (h.perform (has a (List.mem_cons_self ..))) fun b hb =>
      has b (List.mem_cons_of_mem _ hb)
    exact ⟨hlast, List.forall_mem_cons.mpr ⟨h, hall⟩⟩

/-- So does every run. -/
theorem run (h : w.Known) (inputs : List Input) :
    (w.run inputs).Known ∧ ∀ q ∈ w.history inputs, q.before.Known := by
  induction inputs generalizing w with
  | nil => exact ⟨h, by simp [history]⟩
  | cons i inputs ih =>
    have hoffered : ∀ a ∈ w.actions i, a.IsOffered := by
      intro a ha
      rw [← map_action_records w (w.actions i)] at ha
      obtain ⟨q, hq, rfl⟩ := List.mem_map.mp ha
      exact isOffered_of_mem hq
    obtain ⟨hstep, hrecords⟩ := h.foldl hoffered
    rw [← step_eq_foldl] at hstep
    obtain ⟨hlast, hhistory⟩ := ih hstep
    refine ⟨hlast, fun q hq => ?_⟩
    rcases List.mem_append.mp hq with hq | hq
    · exact hrecords q hq
    · exact hhistory q hq

end Known

/-! ## What an evaluation fails with -/

/-- The error is found by reading the grids, before any operation: reading the
    first grid fails with it, or the first is read and the second fails. -/
def FailsToRead (w : Window) (e : CalcError) : Prop :=
  Grid.read w.gridA = .error e ∨
    (∃ a, Grid.read w.gridA = .ok a) ∧ Grid.read w.gridB = .error e

theorem combineJob_eq_error_iff {e : CalcError} : w.combineJob = .error e ↔ w.FailsToRead e := by
  rw [combineJob, bind_eq_error_iff]
  refine or_congr_right ?_
  constructor
  · rintro ⟨a, ha, h⟩
    rcases bind_eq_error_iff.mp h with hb | ⟨b, -, h⟩
    · exact ⟨⟨a, ha⟩, hb⟩
    · cases h
  · rintro ⟨⟨a, ha⟩, hb⟩
    exact ⟨a, ha, bind_eq_error_iff.mpr (.inl hb)⟩

/-- The grids of a job are read, so that they are rectangular. -/
theorem isRectangular_of_combineJob {job : Job} (h : w.combineJob = .ok job) :
    ∃ a b, job = .combine w.gridOperator a b ∧ a.IsRectangular ∧ b.IsRectangular := by
  obtain ⟨a, ha, h⟩ := bind_eq_ok_iff.mp h
  obtain ⟨b, hb, h⟩ := bind_eq_ok_iff.mp h
  exact ⟨a, b, (Except.ok.inj h).symm, Grid.isRectangular_of_read ha, Grid.isRectangular_of_read hb⟩

theorem jobOutcome_eq_error {job : Except CalcError Job} {e : CalcError}
    (h : jobOutcome job = .error e) : job = .error e ∨ ∃ j, job = .ok j ∧ j.run = .error e := by
  rcases bind_eq_error_iff.mp h with hjob | ⟨j, hj, h⟩
  · exact .inl hjob
  · rcases bind_eq_error_iff.mp h with hrun | ⟨answer, -, h⟩
    · exact .inr ⟨j, hj, hrun⟩
    · cases h

/-- The error is neither of an unknown operation nor of a row. -/
def IsOther (e : CalcError) : Prop :=
  (∀ key, e ≠ .unsupported key) ∧ ∀ row expected found, e ≠ .shape (.ragged row expected found)

theorem isOther_request (e : RequestError) : IsOther (.request e) := by
  simp [IsOther]

/-- The symbols of an expression have operations. -/
theorem isOther_of_evaluate {s : String} {e : CalcError} (h : Expression.evaluate s = .error e) :
    IsOther e := by
  cases Expression.refusal_of_evaluateWith h with
  | unsupported hs hx hunknown =>
    have hsymbol := ((Token.of_mem_tokenize hs).2 _ hx).1
    exact absurd hunknown (Expression.resolve_ne_error hsymbol _)
  | _ => simp [IsOther]

theorem isOther_of_entryOutcome {e : CalcError} (h : w.entryOutcome = .error e) : IsOther e := by
  simp only [entryOutcome] at h
  split at h
  · cases h
    exact isOther_request _
  · rcases bind_eq_error_iff.mp h with hexplain | ⟨_, -, h⟩
    · have hvalue := Expression.explain_value .standard (String.ofList (Text.trim w.entry.toList))
      rw [hexplain] at hvalue
      exact isOther_of_evaluate hvalue.symm
    · cases h

/-- The aliases that are listed have operations. -/
theorem Known.isOther_of_reduceJob (hw : w.Known) {e : CalcError}
    (h : jobOutcome w.reduceJob = .error e) : IsOther e := by
  rcases jobOutcome_eq_error h with hread | ⟨j, hj, hrun⟩
  · rcases bind_eq_error_iff.mp hread with hwords | ⟨_, -, h⟩
    · obtain ⟨-, word, -, -, -, -, rfl⟩ := readWords_eq_error_iff.mp hwords
      exact isOther_request _
    · cases h
  · obtain ⟨operands, -, h⟩ := bind_eq_ok_iff.mp hj
    cases h
    have hreflects : Registry.Reflects Registry.standardEntries Registry.standard :=
      Registry.reflects_empty.registerAll Registry.standardEntries
    obtain ⟨operation, -, hresolve⟩ := hreflects.resolve_alias hw.operator
    have hreduce : reduce .standard w.operator operands = .error e := map_eq_error_iff.mp hrun
    rcases reduce_ok_or_divisionByZero hresolve operands with ⟨x, hx⟩ | hx
    · rw [hx] at hreduce
      cases hreduce
    · rw [hx] at hreduce
      cases hreduce
      simp [IsOther]

theorem Known.exists_resolve_gridOperator (hw : w.Known) :
    ∃ operation, GridOperation.resolve w.gridOperator = .ok operation := by
  rcases hw.gridOperator with h | h <;> rw [h]
  · exact ⟨.add, by decide +kernel⟩
  · exact ⟨.multiply, by decide +kernel⟩

/-- Both symbols have operations, which do not complain of a row. -/
theorem Known.isOther_of_combineJob (hw : w.Known) {job : Job} (hjob : w.combineJob = .ok job)
    {e : CalcError} (h : job.run = .error e) : IsOther e := by
  obtain ⟨a, b, rfl, ha, hb⟩ := isRectangular_of_combineJob hjob
  obtain ⟨operation, hresolve⟩ := hw.exists_resolve_gridOperator
  rcases bind_eq_error_iff.mp h with hunknown | ⟨operation, -, h⟩
  · rw [hresolve] at hunknown
    cases hunknown
  rcases bind_eq_error_iff.mp h with happly | ⟨_, -, h⟩
  · obtain ⟨error, herror, rfl⟩ := mapError_eq_error_iff.mp happly
    refine ⟨fun key => CalcError.noConfusion, fun row expected found hragged => ?_⟩
    exact GridOperation.not_ragged_of_apply ha hb herror row expected found
      (CalcError.shape.inj hragged)
  · cases h

/-- An evaluation with known operators fails with neither an unknown operation
    nor a row of another length, unless the row is in a text that is read. -/
theorem Known.outcome_error (hw : w.Known) {e : CalcError} (h : w.outcome = .error e) :
    IsOther e ∨ ∃ row expected found,
      e = .shape (.ragged row expected found) ∧ w.mode = .matrices ∧ w.FailsToRead e := by
  unfold outcome at h
  split at h
  · exact .inl (isOther_of_entryOutcome h)
  · exact .inl (hw.isOther_of_reduceJob h)
  · next hmode =>
    rcases jobOutcome_eq_error h with hread | ⟨job, hjob, hrun⟩
    · have hfails := combineJob_eq_error_iff.mp hread
      have hreason : (∃ word, e = .request (.invalidNumber word)) ∨
          ∃ row expected found, e = .shape (.ragged row expected found) := by
        rcases hfails with ha | ⟨-, hb⟩
        · exact Grid.error_of_read ha
        · exact Grid.error_of_read hb
      rcases hreason with ⟨word, rfl⟩ | ⟨row, expected, found, rfl⟩
      · exact .inl (isOther_request _)
      · exact .inr ⟨row, expected, found, rfl, hmode, hfails⟩
    · exact .inl (hw.isOther_of_combineJob hjob hrun)

end Window

/-! ## What the messages tell -/

namespace CalcError

/-- The letter that the message starts with. -/
def letter : CalcError → Char
  | lex (.unexpectedChar _ _) => 'c'
  | lex (.invalidNumber _ _) | machine (.invalidNumber _) => 'n'
  | paren _ | machine (.underflow _) => 'p'
  | machine (.malformed _) => 'e'
  | unsupported _ | shape .empty => 'o'
  | arithmetic _ | shape (.incompatible _ _ _) => 'd'
  | shape (.ragged _ _ _) => 'l'
  | request _ => 'r'

theorem head?_append {s : String} {c : Char} (h : s.toList.head? = some c) (t : String) :
    (s ++ t).toList.head? = some c := by
  rw [String.toList_append, List.head?_append, h]
  rfl

theorem head?_message (e : CalcError) : e.message.toList.head? = some e.letter := by
  cases e with
  | lex error =>
    cases error with
    | unexpectedChar | invalidNumber =>
      exact head?_append (head?_append (head?_append (head?_append rfl _) _) _) _
  | paren error => cases error <;> rfl
  | machine error =>
    cases error with
    | underflow | malformed | invalidNumber => exact head?_append (head?_append rfl _) _
  | unsupported key => exact head?_append (head?_append rfl _) _
  | arithmetic error =>
    cases error
    rfl
  | shape error =>
    cases error with
    | empty => rfl
    | ragged | incompatible =>
      exact head?_append (head?_append (head?_append (head?_append (head?_append rfl _) _) _) _) _
  | request error => exact head?_append rfl _

theorem letter_eq_of_message_eq {e e' : CalcError} (h : e.message = e'.message) :
    e.letter = e'.letter := by
  have hhead := e.head?_message
  rw [h, e'.head?_message] at hhead
  exact (Option.some.inj hhead).symm

theorem message_ne_empty (e : CalcError) : e.message ≠ "" := by
  intro h
  have hhead := e.head?_message
  rw [h] at hhead
  cases hhead

/-- Only a row is reported as a row. -/
theorem exists_ragged_of_message {e : CalcError} {row expected found : ℕ}
    (h : e.message = (shape (.ragged row expected found)).message) :
    ∃ row expected found, e = shape (.ragged row expected found) := by
  have hletter : e.letter = 'l' := letter_eq_of_message_eq h
  cases e with
  | shape error =>
    cases error with
    | ragged row expected found => exact ⟨row, expected, found, rfl⟩
    | empty | incompatible => simp [letter] at hletter
  | lex error | machine error => cases error <;> simp [letter] at hletter
  | paren | unsupported | arithmetic | request => simp [letter] at hletter

/-- Only an unknown operation is reported as one. -/
theorem exists_unsupported_of_message {e : CalcError} {key : String}
    (h : e.message = (unsupported key).message) : ∃ other, e = unsupported other := by
  have hletter : e.letter = 'o' := letter_eq_of_message_eq h
  cases e with
  | unsupported other => exact ⟨other, rfl⟩
  | shape error =>
    cases error with
    | empty =>
      -- the two messages that start with this letter part after their first word
      have hword : (unsupported key).message.toList[10]? = some 'n' := by
        show ("opération non supportée: '" ++ key ++ "'").toList[10]? = some 'n'
        rw [String.toList_append, String.toList_append, List.append_assoc]
        rfl
      rw [← h] at hword
      exact absurd hword (by decide)
    | ragged | incompatible => simp [letter] at hletter
  | lex error | machine error => cases error <;> simp [letter] at hletter
  | paren | arithmetic | request => simp [letter] at hletter

end CalcError

/-! ## Runs -/

namespace Window

/-- What an evaluation in a state can and cannot come to. -/
structure Sound (w : Window) : Prop where
  known : w.Known
  /-- No operation is reported as unsupported. -/
  supported : ∀ key, w.outcome ≠ .error (.unsupported key)
  /-- The operation on matrices is only asked for on rectangular grids. -/
  rectangular : ∀ job, w.combineJob = .ok job →
    ∃ a b, job = .combine w.gridOperator a b ∧ a.IsRectangular ∧ b.IsRectangular
  /-- A row of another length is found by reading. -/
  ragged : ∀ row expected found, w.outcome = .error (.shape (.ragged row expected found)) →
    w.mode = .matrices ∧ w.FailsToRead (.shape (.ragged row expected found))

theorem Known.sound {w : Window} (hw : w.Known) : w.Sound where
  known := hw
  supported := by
    intro key h
    rcases hw.outcome_error h with hother | ⟨row, expected, found, heq, -⟩
    · exact hother.1 key rfl
    · cases heq
  rectangular := fun _ hjob => isRectangular_of_combineJob hjob
  ragged := by
    intro row expected found h
    rcases hw.outcome_error h with hother | ⟨_, _, _, -, hfails⟩
    · exact absurd rfl (hother.2 row expected found)
    · exact hfails

/-- **Every operation that the window asks for is known**, in every run of a
    window just opened and at each of its actions. What it shows is never that
    an operation is unsupported, and that a row has another length only if the
    last evaluation found so while it read the text of a grid. -/
theorem operators_known (inputs : List Input) :
    let w := initial.run inputs;
    let past := initial.history inputs;
    (w.Sound ∧ ∀ q ∈ past, q.before.Sound) ∧
    (∀ key, w.error ≠ (CalcError.unsupported key).message) ∧
    ∀ row expected found, w.error = (CalcError.shape (.ragged row expected found)).message →
      ∃ q e, IsLast Record.Evaluates past q ∧ w.error = e.message ∧ q.before.mode = .matrices ∧
        q.before.FailsToRead e := by
  intro w past
  obtain ⟨hw, hpast⟩ := known_initial.run inputs
  have hsound : ∀ q ∈ past, q.before.Sound := fun q hq => (hpast q hq).sound
  have hperform : ∀ past w a, Accounts past w → Accounts (past ++ [⟨w, a⟩]) (w.perform a) :=
    fun _ _ a h => h.perform a
  have hinitial : Accounts [] initial := .of_cleared [] rfl rfl rfl
  have haccounts : Accounts past w := invariant_run hperform hinitial inputs
  have hlast {e : CalcError} (he : w.error = e.message) : ∃ q e',
      IsLast Record.Evaluates past q ∧ q.before.Sound ∧ q.before.outcome = .error e' ∧
        e'.message = e.message := by
    have hshown : w.error ≠ "" := he ▸ e.message_ne_empty
    obtain ⟨-, q, e', hq, houtcome, hmessage⟩ := haccounts.error hshown
    have hmem : q ∈ past := by
      obtain ⟨-, before, after, hsplit, -⟩ := hq
      rw [hsplit]
      exact List.mem_append_right _ (List.mem_cons_self ..)
    exact ⟨q, e', hq, hsound q hmem, houtcome, hmessage.symm.trans he⟩
  refine ⟨⟨hw.sound, hsound⟩, fun key hkey => ?_, fun row expected found hrow => ?_⟩
  · obtain ⟨q, e, -, hq, houtcome, hmessage⟩ := hlast hkey
    obtain ⟨other, rfl⟩ := CalcError.exists_unsupported_of_message hmessage
    exact hq.supported other houtcome
  · obtain ⟨q, e, hlast, hq, houtcome, hmessage⟩ := hlast hrow
    obtain ⟨_, _, _, rfl⟩ := CalcError.exists_ragged_of_message hmessage
    obtain ⟨hmode, hfails⟩ := hq.ragged _ _ _ houtcome
    exact ⟨q, _, hlast, hrow.trans hmessage.symm, hmode, hfails⟩

/-- A row that is too short is found while the first grid is read, and shown. -/
theorem operators_known_samples :
    let inputs : List Input := [.event (.click (.mode .matrices)), .type .gridA "1 2\n3",
      .event (.click (.gridOperation .multiply)), .event (.click .evaluate)];
    (initial.run inputs).Sound ∧
      (initial.run inputs).error = (CalcError.shape (.ragged 2 2 1)).message ∧
      ∃ q e, IsLast Record.Evaluates (initial.history inputs) q ∧
        (initial.run inputs).error = e.message ∧ q.before.mode = .matrices ∧
        q.before.FailsToRead e := by
  intro inputs
  have hshown : (initial.run inputs).error = (CalcError.shape (.ragged 2 2 1)).message := by
    decide +kernel
  obtain ⟨⟨hsound, -⟩, -, hragged⟩ := operators_known inputs
  exact ⟨hsound, hshown, hragged 2 2 1 hshown⟩

end Window

end PostfixCalc
