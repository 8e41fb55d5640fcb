import PostfixCalc.Proofs.Actions
import PostfixCalc.Proofs.Composition

/-!
# What the keypad writes

The keypad puts a space on both sides of each operator and parenthesis, and none
between the characters of a number. Where the symbol is a token of its own these
spaces are layout only. But the sign of an exponent is written with the key of
an operator, so that its number is cut in two: `1e+2` becomes `1e + 2`, which
starts with a number without the digits of its exponent. Nothing else goes wrong.

Results:
* `Numeral.scan_append_of_stops`: what may happen to a numeral before a symbol.
* `lexFrom_spaced`: a text with spaces around its symbols has the tokens of the
  text, unless one of them is a number with a sign.
* `Window.insertKey_spaced`: the keypad writes these spaces and no others.
* `Window.tokenize_entry_of_keys`: so it writes what its keys say, apart from
  the sign of an exponent.
-/

namespace PostfixCalc

/-! ## A numeral before a symbol -/

namespace Numeral

variable {rest : List Char}

/-- Text that does not go on with a numeral may still be the sign of an exponent
    that has neither a sign nor digits so far. -/
theorem scanExponent_append_of_stops (hr : Stops rest) (cs : List Char) :
    scanExponent (cs ++ rest) = ((scanExponent cs).1, (scanExponent cs).2 ++ rest) ∨
      (∃ e ∈ (scanExponent cs).1, e.digits = []) ∧
        ∃ e ∈ (scanExponent (cs ++ rest)).1, e.sign ≠ none := by
  have hdigit : ∀ c ∈ rest.head?, c.isDigit = false := fun c hc => (hr c hc).1
  rcases cs with _ | ⟨c, cs⟩
  · left
    rcases rest with _ | ⟨d, rest⟩
    · rfl
    · obtain ⟨-, -, he, hE⟩ := hr d rfl
      simp [scanExponent, he, hE]
  by_cases hc : c = 'e' ∨ c = 'E'
  · rcases cs with _ | ⟨d, cs⟩
    · -- the mark is the last character, and may get its sign from `rest`
      rcases rest with _ | ⟨d, rest⟩
      · left
        simp
      · by_cases hd : d = '+' ∨ d = '-'
        · right
          simp [scanExponent, scanSign, hc, hd]
        · left
          simp [scanExponent, scanSign, hc, hd, hdigit d rfl]
    · left
      have hsign : scanSign (d :: cs ++ rest) =
          ((scanSign (d :: cs)).1, (scanSign (d :: cs)).2 ++ rest) := by
        rw [List.cons_append, scanSign, scanSign]
        split_ifs <;> rfl
      obtain ⟨htake, hdrop⟩ := takeWhile_append_of_head? hdigit (scanSign (d :: cs)).2
      rw [List.cons_append, scanExponent, scanExponent, if_pos hc, if_pos hc, hsign]
      simp only [htake, hdrop]
  · left
    rw [List.cons_append, scanExponent, scanExponent, if_neg hc, if_neg hc]
    rfl

/-- A character that is none of a number ends the scan, unless it is the sign of
    an exponent that is only begun. -/
theorem scan_append_of_stops (hr : Stops rest) (cs : List Char) :
    scan (cs ++ rest) = ((scan cs).1, (scan cs).2 ++ rest) ∨
      (scan cs).1.isComplete = false ∧ ∃ e ∈ (scan (cs ++ rest)).1.exponent, e.sign ≠ none := by
  obtain ⟨htake, hdrop⟩ := takeWhile_append_of_head? (fun c hc => (hr c hc).1) cs
  have hfraction := scanFraction_append_of_stops hr (cs.dropWhile Char.isDigit)
  rcases scanExponent_append_of_stops hr (scanFraction (cs.dropWhile Char.isDigit)).2 with
    hsame | ⟨⟨e, he, hdigits⟩, hsign⟩
  · left
    simp only [scan, htake, hdrop, hfraction, hsame]
  · right
    simp only [scan, hdrop, hfraction]
    refine ⟨?_, hsign⟩
    simp [isComplete, Option.mem_def.mp he, hdigits]

/-- The sign of an exponent is among the characters of the numeral. -/
theorem WellFormed.sign_mem_text {n : Numeral} (h : n.WellFormed) {e : Exponent}
    (he : e ∈ n.exponent) (hsign : e.sign ≠ none) : '+' ∈ n.text ∨ '-' ∈ n.text := by
  obtain ⟨c, hc⟩ := Option.ne_none_iff_exists'.mp hsign
  have hmem : c ∈ n.text := by
    simp [text, Option.mem_def.mp he, Exponent.text, hc]
  rcases (h.exponent e he).sign c hc with rfl | rfl
  · exact .inl hmem
  · exact .inr hmem

end Numeral

/-! ## Spaces around symbols -/

namespace Token

/-- Whether the character is a token of its own. -/
def isSymbol (c : Char) : Bool := (ofSymbol? none c).isSome

/-- Which token it is may depend on the token before, but not whether. -/
theorem isSome_ofSymbol? (previous : Option Token) (c : Char) :
    (ofSymbol? previous c).isSome = isSymbol c := by
  unfold isSymbol ofSymbol?
  split_ifs <;> rfl

theorem isNumber_of_ofSymbol? {previous : Option Token} {c : Char} {t : Token}
    (h : ofSymbol? previous c = some t) : t.isNumber = false := by
  unfold ofSymbol? ofMinus at h
  split_ifs at h <;> obtain rfl := Option.some.inj h <;> rfl

/-- One space after each symbol, and one before it unless it comes first or
    another symbol is before it. -/
def spaced : List Char → List Char
  | [] => []
  | c :: cs =>
    if isSymbol c || cs.head?.any isSymbol then c :: ' ' :: spaced cs else c :: spaced cs

theorem spaced_cons_cons (c d : Char) (cs : List Char) :
    spaced (c :: d :: cs) =
      (c :: if isSymbol c || isSymbol d then [' '] else []) ++ spaced (d :: cs) := by
  rw [spaced, List.head?_cons, Option.any_some]
  split <;> rfl

/-- The spaced text behind a character that is no symbol. -/
def spacedBehind : List Char → List Char
  | [] => []
  | c :: cs => ' ' :: spaced (c :: cs)

/-- No number of the list has a sign in its exponent. -/
def Unsigned (tokens : List Token) : Prop :=
  ∀ l, num l ∈ tokens → '+' ∉ l.toList ∧ '-' ∉ l.toList

theorem unsigned_cons_of_isNumber_eq_false {t : Token} (ht : t.isNumber = false)
    (tokens : List Token) : Unsigned (t :: tokens) ↔ Unsigned tokens := by
  have hne (l : String) : num l ≠ t := by
    rintro rfl
    cases ht
  simp only [Unsigned, List.mem_cons, hne, false_or]

theorem unsigned_num_cons {l : String} (tokens : List Token) :
    Unsigned (num l :: tokens) ↔ ('+' ∉ l.toList ∧ '-' ∉ l.toList) ∧ Unsigned tokens := by
  simp only [Unsigned, List.mem_cons, num.injEq, or_imp, forall_and, forall_eq]
  exact and_and_and_comm

/-- Between two symbols the characters stay together. -/
theorem spaced_append {front rest : List Char} (hfront : ∀ c ∈ front, isSymbol c = false)
    (hne : front ≠ []) (hrest : ∀ c ∈ rest.head?, isSymbol c = true) :
    spaced (front ++ rest) = front ++ spacedBehind rest := by
  induction front with
  | nil => exact absurd rfl hne
  | cons c front ih =>
    have hc : isSymbol c = false := hfront c (List.mem_cons_self ..)
    rcases front with _ | ⟨d, front⟩
    · rcases rest with _ | ⟨r, rest⟩
      · simp [spaced, spacedBehind, hc]
      · simp [spaced, spacedBehind, hc, hrest r rfl]
    · have hd : isSymbol d = false := hfront d (by simp)
      have htail := ih (fun x hx => hfront x (List.mem_cons_of_mem _ hx)) (List.cons_ne_nil _ _)
      show spaced (c :: d :: (front ++ rest)) = c :: (d :: front ++ spacedBehind rest)
      rw [spaced_cons_cons, hc, hd, ← htail]
      rfl

end Token

open Token

/-- The position has no part in what the tokens are. -/
theorem lexFrom_eq_ok_iff {position : ℕ} (position' : ℕ) {previous : Option Token}
    {cs : List Char} {tokens : List Token} :
    lexFrom position previous cs = .ok tokens ↔ lexFrom position' previous cs = .ok tokens := by
  rw [← Nat.zero_add position, ← Nat.zero_add position', lexFrom_add_position,
    lexFrom_add_position, mapError_eq_ok_iff, mapError_eq_ok_iff]

/-- A space more or less behind a literal changes nothing. -/
theorem lexFrom_spacedBehind {front rest : List Char} (hfront : ∀ c ∈ front, isSymbol c = false)
    (hrest : ∀ c ∈ rest.head?, isSymbol c = true) {position : ℕ} (position' : ℕ)
    {previous : Option Token} {tokens : List Token} :
    lexFrom position previous (front ++ spacedBehind rest) = .ok tokens ↔
      lexFrom position' previous (spaced (front ++ rest)) = .ok tokens := by
  rcases front with _ | ⟨c, front⟩
  · rcases rest with _ | ⟨r, rest⟩
    · exact lexFrom_eq_ok_iff position'
    · rw [List.nil_append, List.nil_append, spacedBehind, lexFrom_blank (by decide)]
      exact lexFrom_eq_ok_iff position'
  · rw [spaced_append hfront (List.cons_ne_nil _ _) hrest]
    exact lexFrom_eq_ok_iff position'

theorem stops_of_isSymbol {rest : List Char} (h : ∀ c ∈ rest.head?, isSymbol c = true) :
    Numeral.Stops rest := by
  intro c hc
  obtain ⟨t, ht⟩ := Option.isSome_iff_exists.mp (h c hc)
  exact stops_of_ofSymbol? [] ht c rfl

theorem apart_spacedBehind (rest : List Char) : Numeral.Apart (spacedBehind rest) := by
  cases rest with
  | nil => rintro c ⟨⟩
  | cons c rest => exact Numeral.apart_of_isBlank _ (by decide)

/-- In the spaced text a scan ends where it ends in the text, unless it goes on
    with the sign of an exponent there. -/
theorem scan_spaced {c : Char} (hc : isSymbol c = false) (cs : List Char) :
    (∃ front rest, (∀ d ∈ front, isSymbol d = false) ∧ (∀ d ∈ rest.head?, isSymbol d = true) ∧
      (∀ d ∈ (Numeral.scan (c :: cs)).1.text, isSymbol d = false) ∧
      (Numeral.scan (c :: cs)).2 = front ++ rest ∧
      Numeral.scan (spaced (c :: cs)) = ((Numeral.scan (c :: cs)).1, front ++ spacedBehind rest)) ∨
    (Numeral.scan (spaced (c :: cs))).1.isComplete = false ∧
      ∃ e ∈ (Numeral.scan (c :: cs)).1.exponent, e.sign ≠ none := by
  have hsplit := List.takeWhile_append_dropWhile (p := (!isSymbol ·)) (l := cs)
  have hfront : ∀ d ∈ c :: cs.takeWhile (!isSymbol ·), isSymbol d = false := by
    intro d hd
    rcases List.mem_cons.mp hd with rfl | hd
    · exact hc
    · simpa using Text.eq_true_of_mem_takeWhile hd
  have hrest : ∀ d ∈ (cs.dropWhile (!isSymbol ·)).head?, isSymbol d = true := by
    intro d hd
    simpa using Text.eq_false_of_mem_head?_dropWhile hd
  generalize cs.takeWhile (!isSymbol ·) = front at hsplit hfront
  generalize cs.dropWhile (!isSymbol ·) = rest at hsplit hrest
  obtain rfl := hsplit
  have hspaced : Numeral.scan (spaced (c :: (front ++ rest))) =
      ((Numeral.scan (c :: front)).1, (Numeral.scan (c :: front)).2 ++ spacedBehind rest) := by
    rw [← List.cons_append, spaced_append hfront (List.cons_ne_nil _ _) hrest]
    exact Numeral.scan_append (apart_spacedBehind rest) (c :: front)
  have htext := Numeral.text_scan_append (c :: front)
  rcases Numeral.scan_append_of_stops (stops_of_isSymbol hrest) (c :: front) with
    hsame | ⟨hincomplete, hsign⟩
  · left
    rw [List.cons_append] at hsame
    refine ⟨(Numeral.scan (c :: front)).2, rest, ?_, hrest, ?_, ?_, ?_⟩
    · intro d hd
      exact hfront d (htext ▸ List.mem_append_right _ hd)
    · rw [hsame]
      intro d hd
      exact hfront d (htext ▸ List.mem_append_left _ hd)
    · rw [hsame]
    · rw [hspaced, hsame]
  · right
    rw [hspaced]
    exact ⟨hincomplete, hsign⟩

theorem exists_spaced_cons (c : Char) (cs : List Char) : ∃ tail, spaced (c :: cs) = c :: tail := by
  rw [spaced]
  split
  · exact ⟨_, rfl⟩
  · exact ⟨_, rfl⟩

/-- **Spaces around symbols change no token**, but a number with a sign in its
    exponent is no longer one. -/
theorem lexFrom_spaced {position : ℕ} (position' : ℕ) {previous : Option Token} {cs : List Char}
    {tokens : List Token} :
    lexFrom position' previous (spaced cs) = .ok tokens ↔
      lexFrom position previous cs = .ok tokens ∧ Unsigned tokens := by
  fun_induction lexFrom position previous cs generalizing position' tokens with
  | case1 position previous =>
    rw [spaced, lexFrom_nil]
    refine ⟨fun h => ⟨h, ?_⟩, And.left⟩
    obtain rfl := Except.ok.inj h
    simp [Unsigned]
  | case2 position previous c cs hc ih =>
    rw [spaced]
    split
    · rw [lexFrom_blank hc, lexFrom_blank (by decide), ih]
    · rw [lexFrom_blank hc, ih]
  | case3 position previous c cs hc t ht ih =>
    have hsymbol : isSymbol c = true := by rw [← isSome_ofSymbol? previous, ht]; rfl
    have hnumber : t.isNumber = false := isNumber_of_ofSymbol? ht
    rw [spaced, hsymbol, Bool.true_or, if_pos rfl, lexFrom_symbol (by simpa using hc) ht,
      lexFrom_blank (by decide), map_eq_ok_iff, map_eq_ok_iff]
    constructor
    · rintro ⟨rest, hrest, rfl⟩
      obtain ⟨hrest, hunsigned⟩ := (ih _).mp hrest
      exact ⟨⟨rest, hrest, rfl⟩, (unsigned_cons_of_isNumber_eq_false hnumber rest).mpr hunsigned⟩
    · rintro ⟨⟨rest, hrest, rfl⟩, hunsigned⟩
      rw [unsigned_cons_of_isNumber_eq_false hnumber] at hunsigned
      exact ⟨rest, (ih _).mpr ⟨hrest, hunsigned⟩, rfl⟩
  | case4 position previous c cs hc ht hstart n hfinite =>
    rename_i ih
    have hsymbol : isSymbol c = false := by rw [← isSome_ofSymbol? previous, ht]; rfl
    obtain ⟨tail, htail⟩ := exists_spaced_cons c cs
    rw [htail, lexFrom_literal (by simpa using hc) ht hstart, ← htail]
    rcases scan_spaced hsymbol cs with ⟨front, rest, hfront, hrest, htext, hscan, hspaced⟩ |
      ⟨hincomplete, e, he, hsign⟩
    · have hliteral : '+' ∉ n.literal.toList ∧ '-' ∉ n.literal.toList := by
        rw [Numeral.literal, String.toList_ofList]
        exact ⟨fun hmem => absurd (htext _ hmem) (by decide),
          fun hmem => absurd (htext _ hmem) (by decide)⟩
      rw [hscan] at ih
      rw [hspaced, hscan, if_pos hfinite, map_eq_ok_iff, map_eq_ok_iff]
      constructor
      · rintro ⟨after, hafter, rfl⟩
        obtain ⟨hafter, hunsigned⟩ := (ih 0).mp ((lexFrom_spacedBehind hfront hrest 0).mp hafter)
        exact ⟨⟨after, hafter, rfl⟩, (unsigned_num_cons after).mpr ⟨hliteral, hunsigned⟩⟩
      · rintro ⟨⟨after, hafter, rfl⟩, hunsigned⟩
        have hspaced := (ih 0).mpr ⟨hafter, ((unsigned_num_cons after).mp hunsigned).2⟩
        exact ⟨after, (lexFrom_spacedBehind hfront hrest 0).mpr hspaced, rfl⟩
    · -- the number with a sign is whole in the text, and cut in the spaced one
      rw [if_neg (by simp [Numeral.isFinite_iff, hincomplete])]
      refine ⟨fun h => (by cases h), ?_⟩
      rintro ⟨h, hunsigned⟩
      obtain ⟨after, -, rfl⟩ := map_eq_ok_iff.mp h
      have hwell := Numeral.wellFormed_scan (Numeral.isFinite_iff.mp hfinite).1
      obtain ⟨hplus, hminus⟩ := ((unsigned_num_cons after).mp hunsigned).1
      rw [Numeral.literal, String.toList_ofList] at hplus hminus
      rcases hwell.sign_mem_text he hsign with hmem | hmem
      · exact absurd hmem hplus
      · exact absurd hmem hminus
  | case5 position previous c cs hc ht hstart n hfinite =>
    have hsymbol : isSymbol c = false := by rw [← isSome_ofSymbol? previous, ht]; rfl
    obtain ⟨tail, htail⟩ := exists_spaced_cons c cs
    have hinfinite : ¬ (Numeral.scan (spaced (c :: cs))).1.isFinite = true := by
      rcases scan_spaced hsymbol cs with ⟨front, rest, -, -, -, -, hspaced⟩ | ⟨hincomplete, -⟩
      · rw [hspaced]
        exact hfinite
      · simp [Numeral.isFinite_iff, hincomplete]
    rw [htail, lexFrom_literal (by simpa using hc) ht hstart, ← htail, if_neg hinfinite]
    simp
  | case6 position previous c cs hc ht hstart =>
    obtain ⟨tail, htail⟩ := exists_spaced_cons c cs
    rw [htail, lexFrom_other (by simpa using hc) ht (by simpa using hstart)]
    simp

/-! ## The keypad -/

/-- What is dropped at the end is all in the last part, if something else is in it. -/
theorem Text.dropWhileEnd_append {p : Char → Bool} {back : List Char} (h : ∃ c ∈ back, p c = false)
    (front : List Char) :
    dropWhileEnd p (front ++ back) = front ++ dropWhileEnd p back := by
  have hne : back.reverse.dropWhile p ≠ [] := by
    obtain ⟨c, hc, hp⟩ := h
    intro hnil
    rw [List.dropWhile_eq_nil_iff.mp hnil c (List.mem_reverse.mpr hc)] at hp
    cases hp
  simp [dropWhileEnd, List.dropWhile_append, hne]

theorem Key.isSymbol_symbol (key : OperatorKey) : isSymbol key.symbol = true := by
  cases key <;> decide

theorem Key.isSymbol_figure (key : FigureKey) : isSymbol key.symbol = false := by
  cases key with
  | digit d => revert d; decide
  | point => decide
  | exponent => decide

theorem Key.symbol_ne_space (key : Key) : key.symbol ≠ ' ' := by
  cases key with
  | operator key => cases key <;> decide
  | figure key =>
    cases key with
    | digit d => revert d; decide
    | point => decide
    | exponent => decide

namespace Window

/-- A figure is written without a space. -/
theorem spaced_append_figure {c : Char} (hc : isSymbol c = false) (cs : List Char) :
    spaced (cs ++ [c]) = spaced cs ++ [c] := by
  induction cs with
  | nil => simp [spaced, hc]
  | cons d cs ih =>
    have hhead : ((cs ++ [c]).head?.any isSymbol) = cs.head?.any isSymbol := by
      cases cs with
      | nil => simp [hc]
      | cons => rfl
    rw [List.cons_append, spaced, spaced, hhead, ih]
    split <;> rfl

/-- An operator puts its spaces behind what was written before, whatever spaces
    are there. -/
theorem insertOperator_append {back : List Char} (h : ∃ c ∈ back, c ≠ ' ') (front : List Char)
    (c : Char) : insertOperator (front ++ back) c = front ++ insertOperator back c := by
  have hdrop := Text.dropWhileEnd_append (p := (· == ' ')) (by simpa using h) front
  have hne : Text.dropWhileEnd (· == ' ') back ≠ [] := by
    intro hnil
    obtain ⟨tail, htail, happend⟩ := Text.exists_dropWhileEnd_append (· == ' ') back
    obtain ⟨c, hc, hspace⟩ := h
    rw [hnil, List.nil_append] at happend
    rw [← happend] at hc
    simpa [hspace] using htail c hc
  simp [insertOperator, hdrop, hne]

theorem spaced_append_symbol {c : Char} (hc : isSymbol c = true) {cs : List Char}
    (hcs : ∀ d ∈ cs, d ≠ ' ') : spaced (cs ++ [c]) = insertOperator (spaced cs) c := by
  induction cs with
  | nil => simp [spaced, hc, insertOperator, Text.dropWhileEnd]
  | cons d cs ih =>
    have hd : d ≠ ' ' := hcs d (List.mem_cons_self ..)
    rcases cs with _ | ⟨e, cs⟩
    · cases hsymbol : isSymbol d <;>
        simp [spaced, hc, hsymbol, insertOperator, Text.dropWhileEnd, hd]
    · have he : e ≠ ' ' := hcs e (by simp)
      have htail : ∃ x ∈ spaced (e :: cs), x ≠ ' ' := by
        obtain ⟨tail, htail⟩ := exists_spaced_cons e cs
        exact ⟨e, htail ▸ List.mem_cons_self .., he⟩
      have ih := ih fun x hx => hcs x (List.mem_cons_of_mem _ hx)
      show spaced (d :: e :: (cs ++ [c])) = _
      rw [spaced_cons_cons, spaced_cons_cons, insertOperator_append htail, ← ih]
      rfl

/-- A key goes on with the spaced text of the keys before. -/
theorem insertKey_spaced {cs : List Char} (hcs : ∀ c ∈ cs, c ≠ ' ') (k : Key) :
    insertKey (String.ofList (spaced cs)) k = String.ofList (spaced (cs ++ [k.symbol])) := by
  cases k with
  | operator key =>
    rw [insertKey, String.toList_ofList]
    exact congrArg String.ofList (spaced_append_symbol (Key.isSymbol_symbol key) hcs).symm
  | figure key =>
    show (String.ofList (spaced cs)).push key.symbol = String.ofList (spaced (cs ++ [key.symbol]))
    rw [spaced_append_figure (Key.isSymbol_figure key), ← String.toList_inj, String.toList_push,
      String.toList_ofList, String.toList_ofList]

/-- The keypad writes the spaced text of its keys. -/
theorem foldl_insertKey (keys : List Key) :
    keys.foldl insertKey "" = String.ofList (spaced (keys.map Key.symbol)) := by
  induction keys using List.reverseRecOn with
  | nil => rfl
  | append_singleton keys k ih =>
    have hspace : ∀ c ∈ keys.map Key.symbol, c ≠ ' ' := by
      intro c hc
      obtain ⟨key, -, rfl⟩ := List.mem_map.mp hc
      exact key.symbol_ne_space
    rw [List.foldl_append, List.foldl_cons, List.foldl_nil, ih, insertKey_spaced hspace,
      List.map_append]
    rfl

theorem step_click_key {w : Window} (hmode : w.mode = .expression) (k : Key) :
    w.step (.event (.click (.key k))) =
      { w with entry := insertKey w.entry k, wantsFocus := true } := by
  simp [step, frame?, Event.isShown, Button.isShown, hmode, frame, onEscape, onMode, onInputs,
    onEntry, onKeypad, onActions]

/-- Clicks on keys in the mode of expressions write one key after the other. -/
theorem entry_run_keys {w : Window} (hmode : w.mode = .expression) (keys : List Key) :
    (w.run (keys.map fun k => .event (.click (.key k)))).entry = keys.foldl insertKey w.entry := by
  induction keys generalizing w with
  | nil => rfl
  | cons k keys ih =>
    rw [List.map_cons, run, List.foldl_cons, step_click_key hmode]
    exact ih hmode

/-- **The keypad writes what its keys say, apart from signed exponents**: clicks
    on keys that start with an empty entry write a text with the tokens of the
    keys in a row if no number of theirs has a sign in its exponent, and
    otherwise a text that has no tokens. -/
theorem tokenize_entry_of_keys (w : Window) (hmode : w.mode = .expression) (hentry : w.entry = "")
    (keys : List Key) (tokens : List Token) :
    tokenize (w.run (keys.map fun k => .event (.click (.key k)))).entry = .ok tokens ↔
      tokenize (String.ofList (keys.map Key.symbol)) = .ok tokens ∧
        ∀ l, num l ∈ tokens → '+' ∉ l.toList ∧ '-' ∉ l.toList := by
  rw [entry_run_keys hmode, hentry, foldl_insertKey, tokenize, tokenize, String.toList_ofList,
    String.toList_ofList]
  exact lexFrom_spaced 0

/-- A sum in parentheses is written with spaces and has the tokens of its keys. -/
theorem tokenize_entry_of_keys_sum :
    let keys : List Key := [.operator .minus, .operator .lpar, .figure (.digit 1),
      .figure .exponent, .figure (.digit 2), .operator .plus, .figure .point, .figure (.digit 5),
      .operator .rpar];
    let tokens : List Token := [.neg, .lpar, .num "1e2", .op '+', .num ".5", .rpar];
    tokenize "-(1e2+.5)" = .ok tokens ∧
      tokenize (initial.run (keys.map fun k => .event (.click (.key k)))).entry = .ok tokens := by
  intro keys tokens
  have hplain : tokenize (String.ofList (keys.map Key.symbol)) = .ok tokens := by decide +kernel
  refine ⟨hplain, (tokenize_entry_of_keys initial rfl rfl keys tokens).mpr ⟨hplain, ?_⟩⟩
  intro l hl
  simp only [tokens, List.mem_cons, num.injEq, reduceCtorEq, false_or, or_false, List.not_mem_nil]
    at hl
  rcases hl with rfl | rfl <;> decide

/-- The keys `1`, `e`, `+` and `2` in a row are a number, and the keypad makes a
    number without the digits of its exponent of them. -/
theorem keys_of_signed_exponent :
    let keys : List Key := [.figure (.digit 1), .figure .exponent, .operator .plus,
      .figure (.digit 2)];
    let written := (initial.run (keys.map fun k => .event (.click (.key k)))).entry;
    keys.map Key.symbol = ['1', 'e', '+', '2'] ∧ written = "1e + 2" ∧
      tokenize "1e+2" = .ok [.num "1e+2"] ∧ tokenize written = .error (.invalidNumber "1e" 0) := by
  decide +kernel

end Window

end PostfixCalc
