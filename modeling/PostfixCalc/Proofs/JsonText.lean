import PostfixCalc.Json.Value.Lemmas
import PostfixCalc.Proofs.JsonToken

/-!
# How JSON values are written

The grammar of the format, with white space around each of the six punctuation
marks. A value is nested to any depth, so reading it is proved by induction on
the grammar in one direction and on the value in the other. In between stand the
tokens of the value, of which the text is a spelling.

Results:
* `ofChars?_spells`: a text of the grammar has the tokens of its value.
* `leads_value`: only such a text has them.
* `Value.read?_eq_some_iff`: a value is read exactly from the texts that the
  grammar has for it.
-/

namespace PostfixCalc.Json

/-! ## The grammar -/

/-- What the grammar has texts for. -/
inductive Phrase where
  | value (v : Value)
  /-- The elements of an array that is not empty. -/
  | elements (vs : List Value)
  /-- A key with its value. -/
  | member (key : List Piece) (v : Value)
  /-- The members of an object that is not empty. -/
  | members (ms : List (List Piece × Value))

/-- The texts of a phrase, with no white space at their ends. -/
inductive Spells : Phrase → List Char → Prop
  | null : Spells (.value .null) "null".toList
  | true : Spells (.value (.bool true)) "true".toList
  | false : Spells (.value (.bool false)) "false".toList
  | number {negative : Bool} {n : Numeral} {text : List Char} :
      (Token.number negative n).Written text → Spells (.value (.number negative n)) text
  | string {ps : List Piece} {text : List Char} : (Token.string ps).Written text →
      Spells (.value (.string ps)) text
  | emptyArray {blank : List Char} : Blank blank →
      Spells (.value (.array [])) ('[' :: (blank ++ [']']))
  | array {vs : List Value} {blank text blank' : List Char} : Blank blank →
      Spells (.elements vs) text → Blank blank' →
      Spells (.value (.array vs)) ('[' :: (blank ++ (text ++ (blank' ++ [']']))))
  | emptyObject {blank : List Char} : Blank blank →
      Spells (.value (.object [])) ('\x7b' :: (blank ++ ['\x7d']))
  | object {ms : List (List Piece × Value)} {blank text blank' : List Char} : Blank blank →
      Spells (.members ms) text → Blank blank' →
      Spells (.value (.object ms)) ('\x7b' :: (blank ++ (text ++ (blank' ++ ['\x7d']))))
  | lastElement {v : Value} {text : List Char} : Spells (.value v) text →
      Spells (.elements [v]) text
  | element {v : Value} {vs : List Value} {text blank blank' rest : List Char} :
      Spells (.value v) text → Blank blank → Blank blank' → Spells (.elements vs) rest →
      Spells (.elements (v :: vs)) (text ++ (blank ++ ',' :: (blank' ++ rest)))
  | pair {key : List Piece} {v : Value} {name blank blank' text : List Char} :
      (Token.string key).Written name → Blank blank → Blank blank' → Spells (.value v) text →
      Spells (.member key v) (name ++ (blank ++ ':' :: (blank' ++ text)))
  | lastMember {key : List Piece} {v : Value} {text : List Char} : Spells (.member key v) text →
      Spells (.members [(key, v)]) text
  | member {key : List Piece} {v : Value} {ms : List (List Piece × Value)}
      {text blank blank' rest : List Char} : Spells (.member key v) text → Blank blank →
      Blank blank' → Spells (.members ms) rest →
      Spells (.members ((key, v) :: ms)) (text ++ (blank ++ ',' :: (blank' ++ rest)))

/-- The tokens of a phrase. -/
def Phrase.tokens : Phrase → List Token
  | value v => v.tokens
  | elements vs => joinComma (elementTokens vs)
  | member key v => pairTokens (key, v)
  | members ms => joinComma (memberTokens ms)

theorem Phrase.tokens_element {v : Value} {vs : List Value} (h : vs ≠ []) :
    (elements (v :: vs)).tokens = (value v).tokens ++ .comma :: (elements vs).tokens := by
  cases vs with
  | nil => exact absurd rfl h
  | cons => rfl

theorem Phrase.tokens_member {key : List Piece} {v : Value} {ms : List (List Piece × Value)}
    (h : ms ≠ []) :
    (members ((key, v) :: ms)).tokens = (member key v).tokens ++ .comma :: (members ms).tokens := by
  cases ms with
  | nil => exact absurd rfl h
  | cons => rfl

theorem Spells.elements_ne_nil {vs : List Value} {text : List Char}
    (h : Spells (.elements vs) text) : vs ≠ [] := by
  cases h <;> exact List.cons_ne_nil _ _

theorem Spells.members_ne_nil {ms : List (List Piece × Value)} {text : List Char}
    (h : Spells (.members ms) text) : ms ≠ [] := by
  cases h <;> exact List.cons_ne_nil _ _

/-! ## From the grammar to the tokens -/

open Numeral (Stops)

namespace Token

/-- A punctuation mark is read as its token. -/
theorem ofChars?_mark (c : Char) (t : Token) (hspace : isSpace c = false)
    (hnext : ∀ cs, next? c cs = some (t, cs)) (cs : List Char) :
    ofChars? (c :: cs) = (ofChars? cs).map (t :: ·) := by
  rw [ofChars?_cons hspace, hnext]
  rfl

/-- A punctuation mark does not go on with a number. -/
theorem stops_mark {c : Char} (h : c ∈ [',', ':', ']', '\x7d']) (rest : List Char) :
    Stops (c :: rest) := by
  rintro d ⟨⟩
  simp only [List.mem_cons, List.not_mem_nil, or_false] at h
  rcases h with rfl | rfl | rfl | rfl <;> decide

/-- White space does not go on with a number. -/
theorem stops_blank {blank rest : List Char} (h : Blank blank) (hr : Stops rest) :
    Stops (blank ++ rest) := by
  cases blank with
  | nil => exact hr
  | cons c blank =>
    rintro d ⟨⟩
    rcases h c (List.mem_cons_self ..) with rfl | rfl | rfl | rfl <;> decide

section

variable {blank blank' rest : List Char} {t u : Token} {ts us : List Token}

/-- Brackets with white space on their inner sides. -/
theorem ofChars?_enclosed {opening closing : Char} {text : List Char}
    (hopening : ∀ cs, ofChars? (opening :: cs) = (ofChars? cs).map (t :: ·))
    (hclosing : ∀ cs, ofChars? (closing :: cs) = (ofChars? cs).map (u :: ·))
    (hblank : Blank blank) (hblank' : Blank blank')
    (htext : ofChars? (text ++ (blank' ++ closing :: rest)) =
      (ofChars? (blank' ++ closing :: rest)).map (ts ++ ·)) :
    ofChars? (opening :: (blank ++ (text ++ (blank' ++ closing :: rest)))) =
      (ofChars? rest).map ((t :: ts ++ [u]) ++ ·) := by
  rw [hopening, ofChars?_blank hblank, htext, ofChars?_blank hblank', hclosing]
  simp [Function.comp_def]

/-- A separator with white space on both sides. -/
theorem ofChars?_separated {mark : Char} {first second : List Char}
    (hmark : ∀ cs, ofChars? (mark :: cs) = (ofChars? cs).map (t :: ·)) (hblank : Blank blank)
    (hblank' : Blank blank')
    (hfirst : ofChars? (first ++ (blank ++ mark :: (blank' ++ (second ++ rest)))) =
      (ofChars? (blank ++ mark :: (blank' ++ (second ++ rest)))).map (ts ++ ·))
    (hsecond : ofChars? (second ++ rest) = (ofChars? rest).map (us ++ ·)) :
    ofChars? (first ++ (blank ++ mark :: (blank' ++ (second ++ rest)))) =
      (ofChars? rest).map ((ts ++ t :: us) ++ ·) := by
  rw [hfirst, ofChars?_blank hblank, hmark, ofChars?_blank hblank', hsecond]
  simp [Function.comp_def]

end

/-- A text of the grammar has the tokens of its phrase. -/
theorem ofChars?_spells {p : Phrase} {text : List Char} (h : Spells p text) {rest : List Char}
    (hr : Stops rest) : ofChars? (text ++ rest) = (ofChars? rest).map (p.tokens ++ ·) := by
  induction h generalizing rest with
  | null => exact ofChars?_written .null hr
  | true => exact ofChars?_written .true hr
  | false => exact ofChars?_written .false hr
  | number hn => exact ofChars?_written hn hr
  | string hs => exact ofChars?_written hs hr
  | emptyArray hblank =>
    simp only [List.cons_append, List.append_assoc, List.nil_append]
    rw [ofChars?_mark '[' .openArray rfl fun _ => rfl, ofChars?_blank hblank,
      ofChars?_mark ']' .closeArray rfl fun _ => rfl, Option.map_map]
    rfl
  | array hblank _ hblank' ih =>
    simp only [List.cons_append, List.append_assoc, List.nil_append]
    refine ofChars?_enclosed (ofChars?_mark '[' .openArray rfl fun _ => rfl)
      (ofChars?_mark ']' .closeArray rfl fun _ => rfl) hblank hblank' (ih ?_)
    exact stops_blank hblank' (stops_mark (by decide) rest)
  | emptyObject hblank =>
    simp only [List.cons_append, List.append_assoc, List.nil_append]
    rw [ofChars?_mark '\x7b' .openObject rfl fun _ => rfl, ofChars?_blank hblank,
      ofChars?_mark '\x7d' .closeObject rfl fun _ => rfl, Option.map_map]
    rfl
  | object hblank _ hblank' ih =>
    simp only [List.cons_append, List.append_assoc, List.nil_append]
    refine ofChars?_enclosed (ofChars?_mark '\x7b' .openObject rfl fun _ => rfl)
      (ofChars?_mark '\x7d' .closeObject rfl fun _ => rfl) hblank hblank' (ih ?_)
    exact stops_blank hblank' (stops_mark (by decide) rest)
  | lastElement _ ih => rw [ih hr]; rfl
  | element _ hblank hblank' hvs ih ihs =>
    simp only [List.cons_append, List.append_assoc]
    rw [Phrase.tokens_element hvs.elements_ne_nil]
    refine ofChars?_separated (ofChars?_mark ',' .comma rfl fun _ => rfl) hblank hblank' (ih ?_)
      (ihs hr)
    exact stops_blank hblank (stops_mark (by decide) _)
  | @pair key v name blank blank' text hname hblank hblank' _ ih =>
    simp only [List.cons_append, List.append_assoc]
    have hkey {after : List Char} (hafter : Stops after) :
        ofChars? (name ++ after) = (ofChars? after).map ([string key] ++ ·) :=
      ofChars?_written hname hafter
    refine ofChars?_separated (ofChars?_mark ':' .colon rfl fun _ => rfl) hblank hblank' (hkey ?_)
      (ih hr)
    exact stops_blank hblank (stops_mark (by decide) _)
  | lastMember _ ih => rw [ih hr]; rfl
  | member _ hblank hblank' hms ih ihs =>
    simp only [List.cons_append, List.append_assoc]
    rw [Phrase.tokens_member hms.members_ne_nil]
    refine ofChars?_separated (ofChars?_mark ',' .comma rfl fun _ => rfl) hblank hblank' (ih ?_)
      (ihs hr)
    exact stops_blank hblank (stops_mark (by decide) _)

end Token

/-! ## From the tokens to the grammar -/

namespace Token

/-- A text of `p` is in front of `cs`, after white space, and `ts` are the
    tokens of what follows it. -/
def Leads (p : Phrase) (cs : List Char) (ts : List Token) : Prop :=
  ∃ blank text rest, Blank blank ∧ Spells p text ∧ cs = blank ++ (text ++ rest) ∧
    ofChars? rest = some ts

/-- The tokens of a key with its value come from a text of it, if those of the
    value do. -/
theorem leads_member {key : List Piece} {v : Value}
    (hvalue : ∀ {cs ts}, ofChars? cs = some (v.tokens ++ ts) → Leads (.value v) cs ts)
    {cs : List Char} {ts : List Token}
    (h : ofChars? cs = some (pairTokens (key, v) ++ ts)) : Leads (.member key v) cs ts := by
  obtain ⟨blank, name, tail, hblank, hname, rfl, htail⟩ := exists_written_of_ofChars? h
  obtain ⟨before, _, more, hbefore, ⟨⟩, rfl, hmore⟩ := exists_written_of_ofChars? htail
  obtain ⟨after, text, rest, hafter, htext, rfl, hrest⟩ := hvalue hmore
  exact ⟨blank, _, rest, hblank, .pair hname hbefore hafter htext, by simp, hrest⟩

mutual

/-- The tokens of a value come from a text of it. -/
theorem leads_value (v : Value) {cs : List Char} {ts : List Token}
    (h : ofChars? cs = some (v.tokens ++ ts)) : Leads (.value v) cs ts := by
  match v with
  | .null =>
    obtain ⟨blank, _, rest, hblank, ⟨⟩, hcs, hrest⟩ := exists_written_of_ofChars? h
    exact ⟨blank, _, rest, hblank, .null, hcs, hrest⟩
  | .bool true =>
    obtain ⟨blank, _, rest, hblank, ⟨⟩, hcs, hrest⟩ := exists_written_of_ofChars? h
    exact ⟨blank, _, rest, hblank, .true, hcs, hrest⟩
  | .bool false =>
    obtain ⟨blank, _, rest, hblank, ⟨⟩, hcs, hrest⟩ := exists_written_of_ofChars? h
    exact ⟨blank, _, rest, hblank, .false, hcs, hrest⟩
  | .number _ _ =>
    obtain ⟨blank, text, rest, hblank, htext, hcs, hrest⟩ := exists_written_of_ofChars? h
    exact ⟨blank, text, rest, hblank, .number htext, hcs, hrest⟩
  | .string _ =>
    obtain ⟨blank, text, rest, hblank, htext, hcs, hrest⟩ := exists_written_of_ofChars? h
    exact ⟨blank, text, rest, hblank, .string htext, hcs, hrest⟩
  | .array [] =>
    obtain ⟨blank, _, inner, hblank, ⟨⟩, rfl, hinner⟩ := exists_written_of_ofChars? h
    obtain ⟨blank', _, rest, hblank', ⟨⟩, rfl, hrest⟩ := exists_written_of_ofChars? hinner
    exact ⟨blank, _, rest, hblank, .emptyArray hblank', by simp, hrest⟩
  | .array (e :: es) =>
    -- the bracket, then the elements by recursion, then the other bracket
    simp only [Value.tokens, List.cons_append, List.append_assoc] at h
    obtain ⟨blank, _, inner, hblank, ⟨⟩, rfl, hinner⟩ := exists_written_of_ofChars? h
    obtain ⟨before, text, tail, hbefore, htext, rfl, htail⟩ :=
      leads_elements (e :: es) (List.cons_ne_nil _ _) hinner
    obtain ⟨after, _, rest, hafter, ⟨⟩, rfl, hrest⟩ := exists_written_of_ofChars? htail
    exact ⟨blank, _, rest, hblank, .array hbefore htext hafter, by simp, hrest⟩
  | .object [] =>
    obtain ⟨blank, _, inner, hblank, ⟨⟩, rfl, hinner⟩ := exists_written_of_ofChars? h
    obtain ⟨blank', _, rest, hblank', ⟨⟩, rfl, hrest⟩ := exists_written_of_ofChars? hinner
    exact ⟨blank, _, rest, hblank, .emptyObject hblank', by simp, hrest⟩
  | .object ((key, e) :: ms) =>
    simp only [Value.tokens, List.cons_append, List.append_assoc] at h
    obtain ⟨blank, _, inner, hblank, ⟨⟩, rfl, hinner⟩ := exists_written_of_ofChars? h
    obtain ⟨before, text, tail, hbefore, htext, rfl, htail⟩ :=
      leads_members ((key, e) :: ms) (List.cons_ne_nil _ _) hinner
    obtain ⟨after, _, rest, hafter, ⟨⟩, rfl, hrest⟩ := exists_written_of_ofChars? htail
    exact ⟨blank, _, rest, hblank, .object hbefore htext hafter, by simp, hrest⟩

/-- So do those of the elements of an array. -/
theorem leads_elements (vs : List Value) (hne : vs ≠ []) {cs : List Char} {ts : List Token}
    (h : ofChars? cs = some (joinComma (elementTokens vs) ++ ts)) :
    Leads (.elements vs) cs ts := by
  match vs with
  | [] => exact absurd rfl hne
  | [v] =>
    obtain ⟨blank, text, rest, hblank, htext, hcs, hrest⟩ := leads_value v h
    exact ⟨blank, text, rest, hblank, .lastElement htext, hcs, hrest⟩
  | v :: u :: us =>
    simp only [elementTokens, joinComma, List.append_assoc] at h
    obtain ⟨blank, text, tail, hblank, htext, rfl, htail⟩ := leads_value v h
    obtain ⟨before, _, more, hbefore, ⟨⟩, rfl, hmore⟩ := exists_written_of_ofChars? htail
    obtain ⟨after, texts, rest, hafter, htexts, rfl, hrest⟩ :=
      leads_elements (u :: us) (List.cons_ne_nil _ _) hmore
    exact ⟨blank, _, rest, hblank, .element htext hbefore hafter htexts, by simp, hrest⟩

/-- So do those of the members of an object. -/
theorem leads_members (ms : List (List Piece × Value)) (hne : ms ≠ []) {cs : List Char}
    {ts : List Token} (h : ofChars? cs = some (joinComma (memberTokens ms) ++ ts)) :
    Leads (.members ms) cs ts := by
  match ms with
  | [] => exact absurd rfl hne
  | [(key, v)] =>
    obtain ⟨blank, text, rest, hblank, htext, hcs, hrest⟩ :=
      leads_member (fun hv => leads_value v hv) h
    exact ⟨blank, text, rest, hblank, .lastMember htext, hcs, hrest⟩
  | (key, v) :: m :: ms =>
    simp only [memberTokens, joinComma, List.append_assoc] at h
    obtain ⟨blank, text, tail, hblank, htext, rfl, htail⟩ :=
      leads_member (fun hv => leads_value v hv) h
    obtain ⟨before, _, more, hbefore, ⟨⟩, rfl, hmore⟩ := exists_written_of_ofChars? htail
    obtain ⟨after, texts, rest, hafter, htexts, rfl, hrest⟩ :=
      leads_members (m :: ms) (List.cons_ne_nil _ _) hmore
    exact ⟨blank, _, rest, hblank, .member htext hbefore hafter htexts, by simp, hrest⟩

end

end Token

/-! ## The texts of a value -/

/-- `cs` is a text of the grammar for the value, with white space at its ends. -/
def Value.WrittenAs (v : Value) (cs : List Char) : Prop :=
  ∃ before text after, Blank before ∧ Spells (.value v) text ∧ Blank after ∧
    cs = before ++ (text ++ after)

/-- A value is read from exactly the texts that the grammar has for it. -/
theorem Value.read?_eq_some_iff {cs : List Char} {v : Value} :
    read? cs = some v ↔ v.WrittenAs cs := by
  have hread : read? cs = some v ↔ Token.ofChars? cs = some v.tokens := by
    simp only [read?, Option.bind_eq_bind, Option.bind_eq_some_iff, ofTokens?_eq_some_iff,
      exists_eq_right]
  rw [hread]
  constructor
  · intro h
    have hnil : Token.ofChars? cs = some (v.tokens ++ []) := by rwa [List.append_nil]
    obtain ⟨before, text, after, hbefore, htext, hcs, hafter⟩ := Token.leads_value v hnil
    exact ⟨before, text, after, hbefore, htext, Token.blank_of_ofChars? hafter, hcs⟩
  · rintro ⟨before, text, after, hbefore, htext, hafter, rfl⟩
    have hnil : Stops ([] : List Char) := by simp [Stops]
    have hstops : Stops after := by simpa using Token.stops_blank hafter hnil
    have hempty : Token.ofChars? after = some [] := by
      simpa [Token.ofChars?] using Token.ofChars?_blank hafter []
    rw [Token.ofChars?_blank hbefore, Token.ofChars?_spells htext hstops, hempty]
    simp [Phrase.tokens]

end PostfixCalc.Json
