import PostfixCalc.Proofs.Keypad

/-!
# What the key of an operator adds

The key of an operator or a parenthesis first takes off the spaces at the end of
the entry, then puts its symbol between two spaces. White space at the end of a
text is in no token, and with white space in between no number reaches across to
the symbol. So whatever was typed before, if it has tokens, has one more token
now. And as each key takes off the space that the one before has left, there is
one space between the symbols of two keys.

Results:
* `Window.lexFrom_insertOperator`: one more token.
* `Window.insertOperator_insertOperator`: one space between two symbols.
* `Window.tokenize_entry_click`: the entry after one key, and after many.
-/

namespace PostfixCalc

open Token

namespace OperatorKey

/-- The token of a key behind the token `previous`: a minus negates at the start,
    behind an operator and behind an opening parenthesis. -/
def token (previous : Option Token) : OperatorKey → Token
  | lpar => .lpar
  | rpar => .rpar
  | plus => .op '+'
  | minus => if previous.all (fun p => p.isOperator || p == .lpar) then .neg else .op '-'
  | times => .op '*'
  | divided => .op '/'

/-- The tokens of keys, each behind the token of the key before. -/
def tokens (previous : Option Token) : List OperatorKey → List Token
  | [] => []
  | key :: keys => key.token previous :: tokens (some (key.token previous)) keys

/-- A click on a key. -/
def click (key : OperatorKey) : Input := .event (.click (.key (.operator key)))

/-- The symbol of a key is its token wherever it stands. -/
theorem ofSymbol?_symbol (previous : Option Token) (key : OperatorKey) :
    ofSymbol? previous key.symbol = some (key.token previous) := by
  cases key with
  | minus =>
    rcases previous with _ | p
    · rfl
    · cases p <;> rfl
  | lpar | rpar | plus | times | divided => rfl

theorem isBlank_symbol (key : OperatorKey) : Text.isBlank key.symbol = false := by
  cases key <;> decide

theorem symbol_ne_space (key : OperatorKey) : key.symbol ≠ ' ' :=
  Key.symbol_ne_space (.operator key)

theorem lexFrom_symbol (position : ℕ) (previous : Option Token) (key : OperatorKey) :
    lexFrom position previous [key.symbol, ' '] = .ok [key.token previous] := by
  rw [PostfixCalc.lexFrom_symbol key.isBlank_symbol (ofSymbol?_symbol previous key),
    lexFrom_blank (by decide), lexFrom_nil]
  rfl

end OperatorKey

namespace Window

/-! ## One more token -/

/-- Whatever white space is at its end, a text with tokens has one more behind
    them after the key of an operator. -/
theorem lexFrom_insertOperator {cs : List Char} {tokens : List Token}
    (h : lexFrom 0 none cs = .ok tokens) (key : OperatorKey) :
    lexFrom 0 none (insertOperator cs key.symbol) =
      .ok (tokens ++ [key.token tokens.getLast?]) := by
  obtain ⟨spaces, hspaces, hsplit⟩ := Text.exists_dropWhileEnd_append (· == ' ') cs
  have hblank : ∀ c ∈ spaces, Text.isBlank c = true := by
    intro c hc
    rw [eq_of_beq (hspaces c hc)]
    decide
  -- the text without the spaces at its end has the same tokens
  rw [← hsplit, lexFrom_append_blank hblank] at h
  rw [insertOperator]
  generalize Text.dropWhileEnd (· == ' ') cs = kept at h
  rcases kept with _ | ⟨c, kept⟩
  · rw [lexFrom_nil] at h
    obtain rfl := Except.ok.inj h
    exact key.lexFrom_symbol 0 none
  · have happend : (c :: kept) ++ [' '] ++ [key.symbol, ' '] =
        (c :: kept) ++ ' ' :: [key.symbol, ' '] := List.append_assoc ..
    show lexFrom 0 none ((c :: kept) ++ [' '] ++ [key.symbol, ' ']) = _
    rw [happend, lexFrom_append (Numeral.apart_of_isBlank _ (by decide)), h]
    show (lexFrom _ _ (' ' :: [key.symbol, ' '])).map (tokens ++ ·) = _
    rw [lexFrom_blank (by decide), key.lexFrom_symbol, Option.or_none]
    rfl

/-- Many keys add their tokens. -/
theorem lexFrom_foldl_insertOperator {cs : List Char} {tokens : List Token}
    (h : lexFrom 0 none cs = .ok tokens) (keys : List OperatorKey) :
    lexFrom 0 none (keys.foldl (fun cs key => insertOperator cs key.symbol) cs) =
      .ok (tokens ++ OperatorKey.tokens tokens.getLast? keys) := by
  induction keys generalizing cs tokens with
  | nil => rw [List.foldl_nil, h, OperatorKey.tokens, List.append_nil]
  | cons key keys ih =>
    rw [List.foldl_cons, ih (lexFrom_insertOperator h key), List.getLast?_concat,
      List.append_assoc]
    rfl

/-! ## One space -/

/-- What is left of a text without the spaces at its end, and how many they are. -/
theorem exists_append_spaces (cs : List Char) :
    ∃ spaces, cs = Text.dropWhileEnd (· == ' ') cs ++ List.replicate spaces ' ' := by
  obtain ⟨spaces, hspaces, hsplit⟩ := Text.exists_dropWhileEnd_append (· == ' ') cs
  have hreplicate : spaces = List.replicate spaces.length ' ' :=
    List.eq_replicate_length.mpr fun c hc => eq_of_beq (hspaces c hc)
  exact ⟨spaces.length, by rw [← hreplicate, hsplit]⟩

theorem ne_space_of_mem_getLast? {cs : List Char} {c : Char}
    (h : c ∈ (Text.dropWhileEnd (· == ' ') cs).getLast?) : c ≠ ' ' := by
  rw [Text.dropWhileEnd, List.getLast?_reverse] at h
  simpa using Text.eq_false_of_mem_head?_dropWhile h

theorem insertOperator_eq (cs : List Char) (c : Char) :
    insertOperator cs c =
      (if Text.dropWhileEnd (· == ' ') cs = [] then []
        else Text.dropWhileEnd (· == ' ') cs ++ [' ']) ++ [c, ' '] := by
  simp only [insertOperator, List.isEmpty_iff]

/-- A second key takes off the space of the first one, and puts one in its place. -/
theorem insertOperator_insertOperator (cs : List Char) {d : Char} (hd : d ≠ ' ') (c : Char) :
    insertOperator (insertOperator cs d) c = insertOperator cs d ++ [c, ' '] := by
  have hpair : insertOperator [d, ' '] c = [d, ' '] ++ [c, ' '] := by
    simp [insertOperator, Text.dropWhileEnd, hd]
  rw [insertOperator_eq cs d, insertOperator_append ⟨d, by simp, hd⟩, hpair, List.append_assoc]

/-- Each key after the first one writes its symbol and a space. -/
theorem foldl_insertOperator (cs : List Char) (key : OperatorKey) (keys : List OperatorKey) :
    keys.foldl (fun cs key => insertOperator cs key.symbol) (insertOperator cs key.symbol) =
      insertOperator cs key.symbol ++ keys.flatMap fun key => [key.symbol, ' '] := by
  induction keys generalizing cs key with
  | nil => rw [List.foldl_nil, List.flatMap_nil, List.append_nil]
  | cons second keys ih =>
    rw [List.foldl_cons, ih, insertOperator_insertOperator cs key.symbol_ne_space, List.append_assoc]
    rfl

/-! ## Clicks -/

theorem toList_entry_run_clicks {w : Window} (hmode : w.mode = .expression)
    (keys : List OperatorKey) :
    (w.run (keys.map OperatorKey.click)).entry.toList =
      keys.foldl (fun cs key => insertOperator cs key.symbol) w.entry.toList := by
  induction keys generalizing w with
  | nil => rfl
  | cons key keys ih =>
    have hstep := step_click_key hmode (.operator key)
    rw [List.map_cons, run, List.foldl_cons, OperatorKey.click, hstep, List.foldl_cons]
    have hentry : (insertKey w.entry (.operator key)).toList =
        insertOperator w.entry.toList key.symbol := String.toList_ofList
    rw [← hentry]
    exact ih hmode

/-- **The key of an operator adds one token and changes none.** Whatever the
    entry is, with white space anywhere, if it has tokens then a click adds the
    token of the key behind the last one, and many clicks add as many tokens.
    They write their symbols with one space behind each, directly behind the
    entry, whose last spaces give way to one. -/
theorem tokenize_entry_click (w : Window) (hmode : w.mode = .expression) {tokens : List Token}
    (h : tokenize w.entry = .ok tokens) :
    (∀ key : OperatorKey,
      tokenize (w.step key.click).entry = .ok (tokens ++ [key.token tokens.getLast?])) ∧
    (∀ keys : List OperatorKey, tokenize (w.run (keys.map OperatorKey.click)).entry =
      .ok (tokens ++ OperatorKey.tokens tokens.getLast? keys)) ∧
    ∃ kept spaces, w.entry.toList = kept ++ List.replicate spaces ' ' ∧
      (∀ c ∈ kept.getLast?, c ≠ ' ') ∧
      ∀ keys : List OperatorKey, keys ≠ [] → (w.run (keys.map OperatorKey.click)).entry.toList =
        (if kept = [] then [] else kept ++ [' ']) ++ keys.flatMap fun key => [key.symbol, ' '] := by
  have hrun : ∀ keys : List OperatorKey, tokenize (w.run (keys.map OperatorKey.click)).entry =
      .ok (tokens ++ OperatorKey.tokens tokens.getLast? keys) := by
    intro keys
    rw [tokenize, toList_entry_run_clicks hmode]
    exact lexFrom_foldl_insertOperator h keys
  refine ⟨fun key => hrun [key], hrun, ?_⟩
  obtain ⟨spaces, hentry⟩ := exists_append_spaces w.entry.toList
  refine ⟨_, spaces, hentry, fun c hc => ne_space_of_mem_getLast? hc, fun keys hkeys => ?_⟩
  obtain ⟨key, keys, rfl⟩ := List.exists_cons_of_ne_nil hkeys
  rw [toList_entry_run_clicks hmode, List.foldl_cons, foldl_insertOperator, insertOperator_eq,
    List.append_assoc]
  rfl

/-- A tab and spaces behind a number: the first minus subtracts, the second one
    negates what is in the parentheses. -/
theorem tokenize_entry_click_minuses :
    let w : Window := { initial with entry := "(-2.5\t  " };
    tokenize w.entry = .ok [.lpar, .neg, .num "2.5"] ∧
      tokenize (w.step OperatorKey.minus.click).entry =
        .ok [.lpar, .neg, .num "2.5", .op '-'] ∧
      tokenize (w.run ([.minus, .minus, .lpar].map OperatorKey.click)).entry =
        .ok [.lpar, .neg, .num "2.5", .op '-', .neg, .lpar] ∧
      (w.run ([.minus, .minus, .lpar].map OperatorKey.click)).entry = "(-2.5\t - - ( " := by
  intro w
  have htokens : tokenize w.entry = .ok [.lpar, .neg, .num "2.5"] := by decide +kernel
  obtain ⟨hclick, hrun, -⟩ := tokenize_entry_click w rfl htokens
  exact ⟨htokens, hclick .minus, hrun [.minus, .minus, .lpar], by decide +kernel⟩

end Window

end PostfixCalc
