import PostfixCalc.Json.Value

/-!
# Values and their tokens

The machine that reads a value never forgets a token: `Reading.tokens` gives
back all tokens read so far, and each step adds its own. Conversely the tokens
of a value lead the machine from needing a value to having it.

Results:
* `Reading.tokens_step`: a step adds its token to the tokens read so far.
* `Reading.foldlM_tokens`: the tokens of a value are read as that value, within
  any frames.
* `Value.ofTokens?_eq_some_iff`: exactly the tokens of a value are read as it.
-/

namespace PostfixCalc.Json

/-! ## The tokens read so far -/

theorem joinComma_append_singleton (tss : List (List Token)) (ts : List Token) :
    joinComma (tss ++ [ts]) = tss.flatMap (· ++ [.comma]) ++ ts := by
  induction tss with
  | nil => simp [joinComma]
  | cons us rest ih =>
    cases rest with
    | nil => simp [joinComma]
    | cons vs rest => simp [joinComma] at ih ⊢; simpa using ih

theorem elementTokens_eq_map (vs : List Value) : elementTokens vs = vs.map Value.tokens := by
  induction vs with
  | nil => rfl
  | cons v rest ih => simp [elementTokens, ih]

/-- The tokens of a member. -/
def pairTokens (m : List Piece × Value) : List Token := .string m.1 :: .colon :: m.2.tokens

theorem memberTokens_eq_map (ms : List (List Piece × Value)) :
    memberTokens ms = ms.map pairTokens := by
  induction ms with
  | nil => rfl
  | cons m rest ih => obtain ⟨k, v⟩ := m; simp [memberTokens, pairTokens, ih]

/-- The tokens of an open array up to the comma after `before`, which is latest first. -/
def elementsTokens (before : List Value) : List Token :=
  .openArray :: before.reverse.flatMap fun v => v.tokens ++ [.comma]

/-- The tokens of an open object up to the comma after `before`, which is latest first. -/
def membersTokens (before : List (List Piece × Value)) : List Token :=
  .openObject :: before.reverse.flatMap fun m => pairTokens m ++ [.comma]

/-- The tokens of a frame up to the value that is being read. -/
def Frame.tokens : Frame → List Token
  | .array before => elementsTokens before
  | .object before key => membersTokens before ++ [.string key, .colon]

/-- The tokens of all open frames, outermost first. -/
def framesTokens : List Frame → List Token
  | [] => []
  | f :: outer => framesTokens outer ++ f.tokens

/-- All tokens read so far. -/
def Reading.tokens : Reading → List Token
  | .needValue frames => framesTokens frames
  | .firstElement frames => framesTokens frames ++ [.openArray]
  | .firstKey frames => framesTokens frames ++ [.openObject]
  | .needKey before frames => framesTokens frames ++ membersTokens before
  | .needColon before key frames => framesTokens frames ++ membersTokens before ++ [.string key]
  | .complete v frames => framesTokens frames ++ v.tokens

theorem tokens_array_reverse (v : Value) (before : List Value) :
    (Value.array (v :: before).reverse).tokens = elementsTokens before ++ v.tokens ++ [.closeArray] := by
  simp [Value.tokens, elementTokens_eq_map, joinComma_append_singleton, elementsTokens,
    -List.map_reverse, List.flatMap_map]

theorem tokens_object_reverse (k : List Piece) (v : Value) (before : List (List Piece × Value)) :
    (Value.object ((k, v) :: before).reverse).tokens =
      membersTokens before ++ pairTokens (k, v) ++ [.closeObject] := by
  simp [Value.tokens, memberTokens_eq_map, joinComma_append_singleton, membersTokens,
    -List.map_reverse, List.flatMap_map]

theorem Reading.tokens_startValue {frames : List Frame} {t : Token} {s : Reading}
    (h : startValue frames t = some s) : s.tokens = framesTokens frames ++ [t] := by
  cases t <;> simp_all [startValue] <;> subst h <;> simp [Reading.tokens, Value.tokens]

theorem Reading.tokens_continueWith {v : Value} {frames : List Frame} {t : Token} {s : Reading}
    (h : continueWith v frames t = some s) : s.tokens = framesTokens frames ++ v.tokens ++ [t] := by
  unfold continueWith at h
  split at h <;> simp only [Option.some.injEq, reduceCtorEq] at h
  · subst h; simp [Reading.tokens, framesTokens, Frame.tokens, elementsTokens]
  · subst h; simp [Reading.tokens, framesTokens, Frame.tokens, tokens_array_reverse, -List.reverse_cons]
  · subst h; simp [Reading.tokens, framesTokens, Frame.tokens, membersTokens, pairTokens]
  · subst h; simp [Reading.tokens, framesTokens, Frame.tokens, tokens_object_reverse, pairTokens, -List.reverse_cons]

/-- A step adds its token to the tokens read so far. -/
theorem Reading.tokens_step {s s' : Reading} {t : Token} (h : s.step t = some s') :
    s'.tokens = s.tokens ++ [t] := by
  unfold step at h
  split at h
  · exact tokens_startValue h
  · simp at h; subst h; simp [Reading.tokens, Value.tokens, elementTokens, joinComma]
  · rw [tokens_startValue h]; simp [Reading.tokens, framesTokens, Frame.tokens, elementsTokens]
  · simp at h; subst h; simp [Reading.tokens, Value.tokens, memberTokens, joinComma]
  · simp at h; subst h; simp [Reading.tokens, membersTokens]
  · simp at h; subst h; simp [Reading.tokens]
  · simp at h; subst h; simp [Reading.tokens, framesTokens, Frame.tokens]
  · exact tokens_continueWith h
  · simp at h

theorem Reading.tokens_foldlM {s s' : Reading} {ts : List Token}
    (h : ts.foldlM step s = some s') : s'.tokens = s.tokens ++ ts := by
  induction ts generalizing s with
  | nil => simp_all
  | cons t ts ih =>
    simp only [List.foldlM_cons, Option.bind_eq_bind, Option.bind_eq_some_iff] at h
    obtain ⟨s₁, h₁, h⟩ := h
    rw [ih h, tokens_step h₁]
    simp

/-- A value is read only from its own tokens. -/
theorem Value.tokens_of_ofTokens? {ts : List Token} {v : Value} (h : ofTokens? ts = some v) :
    v.tokens = ts := by
  unfold ofTokens? at h
  split at h
  · next hr =>
    simp at h; subst h
    have := Reading.tokens_foldlM hr
    simpa [Reading.tokens, framesTokens] using this
  · simp at h


/-! ## Reading the tokens of a value -/

theorem Value.tokens_ne_closeArray (v : Value) : ∃ t ts, v.tokens = t :: ts ∧ t ≠ .closeArray := by
  cases v <;> simp [Value.tokens]

theorem Reading.step_firstElement {frames : List Frame} {t : Token} (h : t ≠ .closeArray) :
    step (firstElement frames) t = step (needValue (.array [] :: frames)) t := by
  cases t <;> simp_all [step]

theorem Reading.foldlM_firstElement {frames : List Frame} {t : Token} {ts : List Token}
    (h : t ≠ .closeArray) :
    (t :: ts).foldlM step (firstElement frames) =
      (t :: ts).foldlM step (needValue (.array [] :: frames)) := by
  rw [List.foldlM_cons, List.foldlM_cons, step_firstElement h]

mutual

/-- The tokens of a value are read as that value. -/
theorem Reading.foldlM_tokens (v : Value) (frames : List Frame) :
    v.tokens.foldlM step (needValue frames) = some (complete v frames) := by
  match v with
  | .null => rfl
  | .bool _ => rfl
  | .number _ _ => rfl
  | .string _ => rfl
  | .array [] => rfl
  | .array (e :: es) =>
    obtain ⟨t, ts, ht, hne⟩ := e.tokens_ne_closeArray
    have hstart : ∃ us, joinComma (elementTokens (e :: es)) ++ [Token.closeArray] = t :: us := by
      cases es <;> simp [elementTokens, joinComma, ht]
    obtain ⟨us, hus⟩ := hstart
    have := Reading.foldlM_elements (e :: es) [] frames (List.cons_ne_nil _ _)
    rw [hus] at this
    rw [Value.tokens, List.cons_append, hus, List.foldlM_cons]
    exact (foldlM_firstElement hne).trans this
  | .object [] => rfl
  | .object ((k, e) :: ms) =>
    have := Reading.foldlM_members ((k, e) :: ms) [] frames (List.cons_ne_nil _ _)
    rw [Value.tokens, List.cons_append, List.foldlM_cons]
    exact this ▸ by cases ms <;> rfl

/-- The elements of an array are read after the ones before them. -/
theorem Reading.foldlM_elements (es before : List Value) (frames : List Frame) (h : es ≠ []) :
    (joinComma (elementTokens es) ++ [Token.closeArray]).foldlM step
        (needValue (.array before :: frames)) =
      some (complete (.array (before.reverse ++ es)) frames) := by
  match es with
  | [] => exact absurd rfl h
  | [e] =>
    simp only [elementTokens, joinComma, List.foldlM_append, Reading.foldlM_tokens e]
    simp [step, continueWith]
  | e :: f :: fs =>
    have := Reading.foldlM_elements (f :: fs) (e :: before) frames (List.cons_ne_nil _ _)
    simp only [elementTokens, joinComma, List.foldlM_append, List.append_assoc,
      Reading.foldlM_tokens e] at this ⊢
    simpa [step, continueWith] using this

/-- The members of an object are read after the ones before them. -/
theorem Reading.foldlM_members (ms before : List (List Piece × Value)) (frames : List Frame)
    (h : ms ≠ []) :
    (joinComma (memberTokens ms) ++ [Token.closeObject]).foldlM step (needKey before frames) =
      some (complete (.object (before.reverse ++ ms)) frames) := by
  match ms with
  | [] => exact absurd rfl h
  | [(k, e)] =>
    simp only [memberTokens, joinComma, List.foldlM_append, List.cons_append, List.foldlM_cons]
    simp [step, continueWith, Reading.foldlM_tokens e]
  | (k, e) :: m :: fs =>
    have := Reading.foldlM_members (m :: fs) ((k, e) :: before) frames (List.cons_ne_nil _ _)
    simp only [memberTokens, joinComma, List.foldlM_append, List.append_assoc, List.cons_append,
      List.foldlM_cons] at this ⊢
    simpa [step, continueWith, Reading.foldlM_tokens e] using this

end

/-- Exactly the tokens of a value are read as it. -/
theorem Value.ofTokens?_eq_some_iff {ts : List Token} {v : Value} :
    ofTokens? ts = some v ↔ ts = v.tokens := by
  constructor
  · exact fun h => (tokens_of_ofTokens? h).symm
  · rintro rfl
    simp [ofTokens?, Reading.foldlM_tokens]

end PostfixCalc.Json
