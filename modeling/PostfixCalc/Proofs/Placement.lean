import PostfixCalc.Proofs.Conservation
import PostfixCalc.Proofs.Program

/-!
# Where the conversion puts each token

A token is followed through the conversion by its place in the infix expression.
A number is emitted as soon as it is read. An operator may wait, but what waits
comes after all numbers that were read so far. So the numbers keep their order,
and no operator comes to stand in front of a number that it stood behind.

Results:
* `Conversion.Trace.step`: places can be followed through one token of the pass.
* `Postfix.exists_placed`: the tokens of the program with their places.
* `Postfix.Placement`: a matching of tokens by place, in which nothing moves to
  the left past a number.
* `Postfix.ofInfix_keeps`: nothing is lost, doubled or made up, and there is such
  a matching.
-/

namespace PostfixCalc

open scoped List

/-- A token with the place at which it stood in the infix expression. -/
abbrev Placed := Token × ℕ

namespace Placed

/-- The token is no parenthesis. -/
def isKept (x : Placed) : Bool := !x.1.isParenthesis

/-- If `later` is a number then it also stood behind `earlier` before. -/
def Keeps (later earlier : Placed) : Prop :=
  later.1.isNumber = true → earlier.2 < later.2

/-- Tokens that are no numbers may come after anything. -/
theorem keeps_of_isNumber_eq_false {later : Placed} (h : later.1.isNumber = false)
    (earlier : Placed) : later.Keeps earlier := by
  intro hnumber
  rw [h] at hnumber
  cases hnumber

end Placed

namespace Conversion

/-! ## Following the places -/

/-- The tokens that a state holds with their places among the tokens read so far. -/
structure Trace (tokens : List Token) (s : Conversion) where
  emitted : List Placed
  stack : List Placed
  map_emitted : emitted.map Prod.fst = s.emitted
  map_stack : stack.map Prod.fst = s.stack
  perm : (emitted ++ stack).filter Placed.isKept ~ tokens.zipIdx.filter Placed.isKept
  lt_length : ∀ x ∈ emitted ++ stack, x.2 < tokens.length
  /-- Nothing is emitted before a number that stood in front of it. -/
  keeps : emitted.Pairwise Placed.Keeps
  /-- No number waits. -/
  waits : ∀ x ∈ stack, x.1.isNumber = false

namespace Trace

variable {tokens : List Token} {s : Conversion}

/-- Before the first token there is nothing to follow. -/
def start : Trace [] start where
  emitted := []
  stack := []
  map_emitted := rfl
  map_stack := rfl
  perm := .refl _
  lt_length := by simp
  keeps := .nil
  waits := by simp

theorem perm_append_singleton {held held' : List Placed} {t : Token}
    (h : held.filter Placed.isKept ~ tokens.zipIdx.filter Placed.isKept)
    (hheld : held' ~ held ++ [(t, tokens.length)]) :
    held'.filter Placed.isKept ~ (tokens ++ [t]).zipIdx.filter Placed.isKept := by
  calc held'.filter Placed.isKept ~ (held ++ [(t, tokens.length)]).filter Placed.isKept :=
        hheld.filter _
    _ ~ tokens.zipIdx.filter Placed.isKept ++ [(t, tokens.length)].filter Placed.isKept := by
        rw [List.filter_append]
        exact h.append_right _
    _ = (tokens ++ [t]).zipIdx.filter Placed.isKept := by
        rw [← List.filter_append, List.zipIdx_append, Nat.zero_add]
        rfl

theorem lt_length_append_singleton {held held' : List Placed} {t : Token}
    (h : ∀ x ∈ held, x.2 < tokens.length) (hheld : held' ~ held ++ [(t, tokens.length)]) :
    ∀ x ∈ held', x.2 < (tokens ++ [t]).length := by
  intro x hx
  rw [List.length_append, List.length_singleton]
  rcases List.mem_append.mp (hheld.mem_iff.mp hx) with hx | hx
  · have hlt := h x hx
    omega
  · rw [List.mem_singleton.mp hx]
    omega

/-- A number is emitted: all that was emitted before stood in front of it. -/
def emit (p : Trace tokens s) (t : Token) : Trace (tokens ++ [t]) ⟨t :: s.emitted, s.stack⟩ :=
  have hheld : (t, tokens.length) :: p.emitted ++ p.stack ~
      p.emitted ++ p.stack ++ [(t, tokens.length)] := (List.perm_append_singleton _ _).symm
  { emitted := (t, tokens.length) :: p.emitted
    stack := p.stack
    map_emitted := by rw [List.map_cons, p.map_emitted]
    map_stack := p.map_stack
    perm := perm_append_singleton p.perm hheld
    lt_length := lt_length_append_singleton p.lt_length hheld
    keeps := List.pairwise_cons.mpr
      ⟨fun x hx _ => p.lt_length x (List.mem_append_left _ hx), p.keeps⟩
    waits := p.waits }

/-- A token that is no number waits. -/
def wait (p : Trace tokens s) {t : Token} (ht : t.isNumber = false) :
    Trace (tokens ++ [t]) ⟨s.emitted, t :: s.stack⟩ :=
  have hheld : p.emitted ++ (t, tokens.length) :: p.stack ~
      p.emitted ++ p.stack ++ [(t, tokens.length)] :=
    List.perm_middle.trans (List.perm_append_singleton _ _).symm
  { emitted := p.emitted
    stack := (t, tokens.length) :: p.stack
    map_emitted := p.map_emitted
    map_stack := by rw [List.map_cons, p.map_stack]
    perm := perm_append_singleton p.perm hheld
    lt_length := lt_length_append_singleton p.lt_length hheld
    keeps := p.keeps
    waits := List.forall_mem_cons.mpr ⟨ht, p.waits⟩ }

/-- What waits on top is emitted, and no number is among it. -/
theorem release (p : Trace tokens s) {above below : List Token} (hs : s.stack = above ++ below) :
    Nonempty (Trace tokens ⟨s.emit above, below⟩) := by
  obtain ⟨front, back, hstack, hfront, hback⟩ := List.map_eq_append_iff.mp (p.map_stack.trans hs)
  have hperm : front.reverse ++ p.emitted ++ back ~ p.emitted ++ p.stack := by
    rw [hstack, ← List.append_assoc]
    exact ((front.reverse_perm.append_right _).trans List.perm_append_comm).append_right back
  have hwaits : ∀ x ∈ front.reverse, x.1.isNumber = false := by
    intro x hx
    refine p.waits x ?_
    rw [hstack]
    exact List.mem_append_left _ (List.mem_reverse.mp hx)
  have hkeeps : ∀ x ∈ front.reverse, ∀ y, Placed.Keeps x y := fun x hx y =>
    Placed.keeps_of_isNumber_eq_false (hwaits x hx) y
  refine ⟨{
    emitted := front.reverse ++ p.emitted
    stack := back
    map_emitted := by rw [List.map_append, List.map_reverse, hfront, p.map_emitted]; rfl
    map_stack := hback
    perm := (hperm.filter _).trans p.perm
    lt_length := fun x hx => p.lt_length x (hperm.mem_iff.mp hx)
    keeps := List.pairwise_append.mpr ⟨?_, p.keeps, fun x hx y _ => hkeeps x hx y⟩
    waits := ?_ }⟩
  · exact List.pairwise_of_forall_mem_list fun x hx y _ => hkeeps x hx y
  · intro x hx
    refine p.waits x ?_
    rw [hstack]
    exact List.mem_append_right _ hx

/-- A closing parenthesis goes away with the open one on top. -/
theorem drop {emitted below : List Token} (p : Trace tokens ⟨emitted, .lpar :: below⟩) :
    Nonempty (Trace (tokens ++ [.rpar]) ⟨emitted, below⟩) := by
  obtain ⟨⟨t, i⟩, back, hstack, ht, hback⟩ := List.map_eq_cons_iff.mp p.map_stack
  obtain rfl : t = .lpar := ht
  have hmem : ∀ x ∈ p.emitted ++ back, x ∈ p.emitted ++ p.stack := by
    intro x hx
    rw [hstack, List.mem_append, List.mem_cons]
    exact (List.mem_append.mp hx).imp_right .inr
  refine ⟨{
    emitted := p.emitted
    stack := back
    map_emitted := p.map_emitted
    map_stack := hback
    perm := ?_
    lt_length := ?_
    keeps := p.keeps
    waits := fun x hx => p.waits x (hstack ▸ List.mem_cons_of_mem _ hx) }⟩
  · have hperm := p.perm
    rw [hstack, List.filter_append, List.filter_cons_of_neg (by simp [Placed.isKept, Token.isParenthesis])] at hperm
    rw [List.filter_append, List.zipIdx_append, List.filter_append]
    simpa [Placed.isKept, Token.isParenthesis] using hperm
  · intro x hx
    have hlt := p.lt_length x (hmem x hx)
    rw [List.length_append]
    omega

/-- Places can be followed through one token. -/
theorem step (p : Trace tokens s) {s' : Conversion} {t : Token} (h : s.step t = .ok s') :
    Nonempty (Trace (tokens ++ [t]) s') := by
  have hpush (t : Token) (ht : t.isNumber = false) :
      Nonempty (Trace (tokens ++ [t]) (s.pushOperator t)) := by
    obtain ⟨released⟩ := p.release (s.stack.takeWhile_append_dropWhile (p := t.yields)).symm
    exact ⟨released.wait ht⟩
  cases t with
  | num literal =>
    obtain rfl := Except.ok.inj h
    exact ⟨p.emit (.num literal)⟩
  | op symbol =>
    obtain rfl := Except.ok.inj h
    exact hpush (.op symbol) rfl
  | neg =>
    obtain rfl := Except.ok.inj h
    exact hpush .neg rfl
  | lpar =>
    obtain rfl := Except.ok.inj h
    exact ⟨p.wait rfl⟩
  | rpar =>
    obtain ⟨above, below, hstack, -, rfl⟩ := exists_of_close h
    obtain ⟨released⟩ := p.release hstack
    exact released.drop

/-- Places can be followed through the whole pass. -/
theorem foldlM {read : List Token} (p : Trace read s) {s' : Conversion} {tokens : List Token}
    (h : tokens.foldlM Conversion.step s = .ok s') : Nonempty (Trace (read ++ tokens) s') := by
  induction tokens generalizing read s with
  | nil =>
    obtain rfl := Except.ok.inj h
    rw [List.append_nil]
    exact ⟨p⟩
  | cons t tokens ih =>
    obtain ⟨middle, hstep, hrest⟩ := bind_eq_ok_iff.mp h
    obtain ⟨next⟩ := p.step hstep
    rw [← List.singleton_append, ← List.append_assoc]
    exact ih next hrest

end Trace

end Conversion

namespace Postfix

variable {tokens program : List Token}

/-- The tokens of the program are those of the infix expression, apart from the
    parentheses, and all that stands in front of a number in the program did so
    in the infix expression. -/
theorem exists_placed (h : ofInfix tokens = .ok program) :
    ∃ placed : List Placed, placed.map Prod.fst = program ∧
      placed ~ tokens.zipIdx.filter Placed.isKept ∧
      placed.Pairwise fun earlier later => later.Keeps earlier := by
  obtain ⟨s, hrun, hfinish⟩ := bind_eq_ok_iff.mp h
  have htidy := Conversion.tidy_start.foldlM hrun
  obtain ⟨p⟩ := Conversion.Trace.start.foldlM hrun
  -- the end emits all that waits
  obtain ⟨q⟩ := p.release (List.append_nil s.stack).symm
  unfold Conversion.finish at hfinish
  split_ifs at hfinish with hall
  obtain rfl := Except.ok.inj hfinish
  have hstack : q.stack = [] := List.map_eq_nil_iff.mp q.map_stack
  have hkept : q.emitted.filter Placed.isKept = q.emitted := by
    rw [List.filter_eq_self]
    intro x hx
    have hmem : x.1 ∈ s.emit s.stack := by
      have hmap : q.emitted.map Prod.fst = s.emit s.stack := q.map_emitted
      rw [← hmap]
      exact List.mem_map_of_mem hx
    rcases List.mem_append.mp hmem with hmem | hmem
    · have hoperator := List.all_eq_true.mp hall _ (List.mem_reverse.mp hmem)
      simp [Placed.isKept, Token.isParenthesis_of_isOperator hoperator]
    · simp [Placed.isKept, htidy.emitted _ hmem]
  refine ⟨q.emitted.reverse, ?_, ?_, List.pairwise_reverse.mpr q.keeps⟩
  · rw [List.map_reverse, q.map_emitted]
  · have hperm := q.perm
    rw [hstack, List.append_nil, hkept] at hperm
    exact (List.reverse_perm _).trans hperm

/-! ## The order of the numbers -/

theorem map_fst_filter_zipIdx (p : Token → Bool) (tokens : List Token) :
    (tokens.zipIdx.filter fun x => p x.1).map Prod.fst = tokens.filter p := by
  have hmap := List.filter_map (f := Prod.fst) (p := p) (l := tokens.zipIdx)
  rw [List.zipIdx_map_fst] at hmap
  exact hmap.symm

theorem pairwise_zipIdx (tokens : List Token) :
    tokens.zipIdx.Pairwise fun earlier later => earlier.2 < later.2 := by
  rw [← List.pairwise_map, List.zipIdx_map_snd]
  exact List.pairwise_lt_range'

/-- The numbers are the same in the same order. -/
theorem filter_isNumber_ofInfix (h : ofInfix tokens = .ok program) :
    program.filter Token.isNumber = tokens.filter Token.isNumber := by
  obtain ⟨placed, rfl, hperm, hkeeps⟩ := exists_placed h
  have hnumbers : placed.filter (·.1.isNumber) = tokens.zipIdx.filter (·.1.isNumber) := by
    have hkept : (tokens.zipIdx.filter Placed.isKept).filter (·.1.isNumber) =
        tokens.zipIdx.filter (·.1.isNumber) := by
      rw [List.filter_filter]
      refine List.filter_congr fun x _ => ?_
      rcases x with ⟨_ | _ | _ | _ | _, i⟩ <;> rfl
    have hsorted : (placed.filter (·.1.isNumber)).Pairwise fun x y => x.2 < y.2 := by
      refine List.pairwise_filter.mpr (hkeeps.imp ?_)
      exact fun hkeeps _ hnumber => hkeeps hnumber
    -- two lists in increasing order of places with the same elements are equal
    refine List.Perm.eq_of_pairwise ?_ hsorted ((pairwise_zipIdx tokens).filter _) ?_
    · intro x y _ _ hxy hyx
      omega
    · rw [← hkept]
      exact hperm.filter _
  rw [List.filter_map, ← map_fst_filter_zipIdx, ← hnumbers]
  rfl

/-! ## The matching -/

/-- `place` matches the tokens of an infix expression with equal ones of the
    program, parentheses apart, each with one of its own. What stands behind a
    number is matched behind it. -/
structure Placement (tokens program : List Token) (place : ℕ → ℕ) : Prop where
  equal : ∀ i t, tokens[i]? = some t → t.isParenthesis = false → program[place i]? = some t
  injective : ∀ i j t u, tokens[i]? = some t → t.isParenthesis = false → tokens[j]? = some u →
    u.isParenthesis = false → place i = place j → i = j
  behind : ∀ i j l t, tokens[i]? = some (.num l) → tokens[j]? = some t → t.isParenthesis = false →
    i < j → place i < place j

/-- The token that stood at a place is found in the program by this place. -/
theorem getElem?_idxOf {placed : List Placed} (hperm : placed ~ tokens.zipIdx.filter Placed.isKept)
    {i : ℕ} {t : Token} (hi : tokens[i]? = some t) (ht : t.isParenthesis = false) :
    placed[(placed.map Prod.snd).idxOf i]? = some (t, i) := by
  have hmem : (t, i) ∈ placed := by
    rw [hperm.mem_iff, List.mem_filter, List.mk_mem_zipIdx_iff_getElem?]
    exact ⟨hi, by simp [Placed.isKept, ht]⟩
  have hindex : i ∈ placed.map Prod.snd := List.mem_map_of_mem hmem
  have hlt := List.idxOf_lt_length_iff.mpr hindex
  have hfound := List.getElem_idxOf hlt
  generalize (placed.map Prod.snd).idxOf i = k at hlt hfound
  rw [List.getElem_map] at hfound
  rw [List.length_map] at hlt
  have hplaced : (placed[k].1, i) ∈ tokens.zipIdx := by
    have hk := hperm.mem_iff.mp (List.getElem_mem hlt)
    rw [← hfound]
    exact List.mem_of_mem_filter hk
  rw [List.mk_mem_zipIdx_iff_getElem?, hi] at hplaced
  rw [List.getElem?_eq_getElem hlt, Option.some.inj hplaced, ← hfound]

theorem exists_placement (h : ofInfix tokens = .ok program) :
    ∃ place, Placement tokens program place := by
  obtain ⟨placed, rfl, hperm, hkeeps⟩ := exists_placed h
  have hinjective {i j : ℕ} {t u : Token} (hi : tokens[i]? = some t)
      (ht : t.isParenthesis = false) (hj : tokens[j]? = some u) (hu : u.isParenthesis = false)
      (heq : (placed.map Prod.snd).idxOf i = (placed.map Prod.snd).idxOf j) : i = j := by
    have hfound := getElem?_idxOf hperm hi ht
    rw [heq, getElem?_idxOf hperm hj hu] at hfound
    exact (congrArg Prod.snd (Option.some.inj hfound)).symm
  refine ⟨fun i => (placed.map Prod.snd).idxOf i, ?_, fun i j t u => hinjective, ?_⟩
  · intro i t hi ht
    rw [List.getElem?_map, getElem?_idxOf hperm hi ht]
    rfl
  · intro i j l t hi hj ht hlt
    obtain ⟨ha, hnumber⟩ := List.getElem?_eq_some_iff.mp (getElem?_idxOf hperm hi rfl)
    obtain ⟨hb, htoken⟩ := List.getElem?_eq_some_iff.mp (getElem?_idxOf hperm hj ht)
    by_contra hle
    rcases Nat.lt_or_eq_of_le (Nat.le_of_not_lt hle) with hless | heq
    · -- the number would come after a token that it stood in front of
      have hbehind := List.pairwise_iff_getElem.mp hkeeps _ _ hb ha hless
      rw [hnumber, htoken] at hbehind
      exact absurd (hbehind rfl) (Nat.lt_asymm hlt)
    · exact absurd (hinjective hj ht hi rfl heq) (Nat.ne_of_gt hlt)

/-- **The conversion loses, doubles and makes up nothing**: the program holds no
    parenthesis and all other tokens, the numbers in the same order, and its
    tokens can be matched with those of the infix expression so that each
    operator comes after every number that it stood behind. -/
theorem ofInfix_keeps (h : ofInfix tokens = .ok program) :
    (∀ t ∈ program, t ≠ .lpar ∧ t ≠ .rpar) ∧
      program ~ tokens.filter (!·.isParenthesis) ∧
      program.filter Token.isNumber = tokens.filter Token.isNumber ∧
      ∃ place, Placement tokens program place := by
  have hperm := perm_of_ofInfix h
  refine ⟨fun t ht => ?_, hperm, filter_isNumber_ofInfix h, exists_placement h⟩
  have hkept := (List.mem_filter.mp (hperm.mem_iff.mp ht)).2
  constructor <;> rintro rfl <;> cases hkept

/-- Two operators in a row, one of them behind the last number, and parentheses
    around nothing. -/
theorem ofInfix_keeps_malformed :
    let tokens : List Token := [.op '*', .num "1", .lpar, .rpar, .op '+', .neg, .num "2", .op '/'];
    let program : List Token := [.num "1", .op '*', .num "2", .neg, .op '/', .op '+'];
    ofInfix tokens = .ok program ∧ program.filter Token.isNumber = [.num "1", .num "2"] ∧
      ∃ place, Placement tokens program place := by
  intro tokens program
  have hprogram : ofInfix tokens = .ok program := by decide
  obtain ⟨-, -, hnumbers, hplace⟩ := ofInfix_keeps hprogram
  exact ⟨hprogram, hnumbers, hplace⟩

end Postfix

end PostfixCalc
