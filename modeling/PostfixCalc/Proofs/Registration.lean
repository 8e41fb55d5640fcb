import PostfixCalc.Proofs.LowerCase
import PostfixCalc.Registry

/-!
# The registry as a history of registrations

A registry is made by registering operations one after the other, and each
registration counts until the next one under the same normalised alias. So what
a registry knows is found in the list of its registrations, read from the end.
An alias that it lists is in normal form already, and as the normal form of a
normal form is itself, the alias resolves to the operation listed under it.

Results:
* `normalizeKey_normalizeKey`: the normal form of a key is in normal form.
* `Registry.isLatest_append_iff`: one more entry counts for its own alias only.
* `Registry.pairwise_put`, `Registry.mem_put_iff`: one more key keeps the order.
* `Registry.Reflects.register`: a registration keeps what holds of the history.
* `Registry.registerAll_exact`: what a registry resolves and lists, by its
  history.
-/

namespace PostfixCalc

/-- The normal form of a key is in normal form. -/
theorem normalizeKey_normalizeKey (key : String) :
    normalizeKey (normalizeKey key) = normalizeKey key := by
  simp only [normalizeKey, String.toList_ofList, Text.trim_lower_trim, Text.lower_lower]

namespace Registry

/-! ## Histories -/

/-- Registers the entries in order. -/
def registerAll (r : Registry) (entries : List (String × Operation)) : Registry :=
  entries.foldl (fun r entry => r.register entry.1 entry.2) r

/-- `operation` is that of the last entry whose alias has the normal form `normal`. -/
def IsLatest (entries : List (String × Operation)) (normal : String) (operation : Operation) :
    Prop :=
  ∃ before name after, entries = before ++ (name, operation) :: after ∧
    normalizeKey name = normal ∧ ∀ e ∈ after, normalizeKey e.1 ≠ normal

variable {entries : List (String × Operation)} {name key normal : String}
  {operation : Operation} {r : Registry}

theorem not_isLatest_nil : ¬ IsLatest [] normal operation := by
  rintro ⟨before, name, after, hnil, -⟩
  simp at hnil

/-- One more entry counts for its own alias and for no other. -/
theorem isLatest_append_iff {other : Operation} :
    IsLatest (entries ++ [(name, other)]) normal operation ↔
      normalizeKey name = normal ∧ other = operation ∨
        normalizeKey name ≠ normal ∧ IsLatest entries normal operation := by
  constructor
  · rintro ⟨before, name', after, heq, hname, hafter⟩
    -- the entry that counts is the last of the list, or the last of the list comes after it
    rcases List.eq_nil_or_concat' after with rfl | ⟨after', e, rfl⟩
    · obtain ⟨-, hlast⟩ := List.append_inj' heq rfl
      obtain ⟨rfl, rfl⟩ := Prod.mk.inj (List.singleton_inj.mp hlast)
      exact .inl ⟨hname, rfl⟩
    · have hsplit : before ++ (name', operation) :: (after' ++ [e]) =
          (before ++ (name', operation) :: after') ++ [e] := by simp
      rw [hsplit] at heq
      obtain ⟨hentries, hlast⟩ := List.append_inj' heq rfl
      obtain rfl := List.singleton_inj.mp hlast
      refine .inr ⟨hafter (name, other) (by simp), before, name', after', hentries, hname, ?_⟩
      intro e he
      exact hafter e (by simp [he])
  · rintro (⟨hname, rfl⟩ | ⟨hne, before, name', after, rfl, hname, hafter⟩)
    · exact ⟨entries, name, [], rfl, hname, by simp⟩
    · refine ⟨before, name', after ++ [(name, other)], by simp, hname, ?_⟩
      intro e he
      rcases List.mem_append.mp he with he | he
      · exact hafter e he
      · rw [List.mem_singleton.mp he]
        exact hne

/-! ## One more key -/

/-- The keys are the old ones and the new one. -/
theorem mem_put_iff {a : String} :
    a ∈ (put key operation entries).map Prod.fst ↔ a = key ∨ a ∈ entries.map Prod.fst := by
  induction entries with
  | nil => simp [put]
  | cons entry rest ih =>
    rw [put]
    split_ifs with heq hlt
    · subst heq
      simp
    · simp
    · rw [List.map_cons, List.mem_cons, ih, List.map_cons, List.mem_cons]
      exact or_left_comm

/-- A key is put where the order wants it. -/
theorem pairwise_put (h : (entries.map Prod.fst).Pairwise (· < ·)) (key : String)
    (operation : Operation) : ((put key operation entries).map Prod.fst).Pairwise (· < ·) := by
  induction entries with
  | nil => simp [put]
  | cons entry rest ih =>
    rw [List.map_cons, List.pairwise_cons] at h
    obtain ⟨hfirst, hrest⟩ := h
    rw [put]
    split_ifs with heq hlt
    · subst heq
      exact List.pairwise_cons.mpr ⟨hfirst, hrest⟩
    · rw [List.map_cons, List.map_cons, List.pairwise_cons]
      refine ⟨?_, List.pairwise_cons.mpr ⟨hfirst, hrest⟩⟩
      intro a ha
      rcases List.mem_cons.mp ha with rfl | ha
      · exact hlt
      · exact String.lt_trans hlt (hfirst a ha)
    · rw [List.map_cons, List.pairwise_cons]
      refine ⟨?_, ih hrest⟩
      intro a ha
      rcases mem_put_iff.mp ha with rfl | ha
      · exact Std.lt_of_le_of_ne (String.not_lt.mp hlt) (Ne.symm heq)
      · exact hfirst a ha

theorem notMem_aliases_of_lookup (h : r.entries.lookup normal = none) : normal ∉ r.aliases := by
  intro hmem
  obtain ⟨entry, hentry, hkey⟩ := List.mem_map.mp hmem
  have hne := List.lookup_eq_none_iff.mp h entry hentry
  simp [hkey] at hne

/-! ## What a history makes of a registry -/

/-- The registry knows the last entry of each alias and nothing else, and its
    keys are in increasing order. -/
structure Reflects (entries : List (String × Operation)) (r : Registry) : Prop where
  lookup : ∀ normal operation,
    r.entries.lookup normal = some operation ↔ IsLatest entries normal operation
  sorted : r.aliases.Pairwise (· < ·)
  mem_aliases : ∀ a, a ∈ r.aliases ↔ ∃ e ∈ entries, normalizeKey e.1 = a

theorem reflects_empty : Reflects [] empty := by
  refine ⟨?_, List.Pairwise.nil, by simp [aliases, empty]⟩
  intro normal operation
  simp [empty, not_isLatest_nil]

/-- A registration replaces what was known under its alias, and keeps all else. -/
theorem Reflects.register (h : Reflects entries r) (name : String) (operation : Operation) :
    Reflects (entries ++ [(name, operation)]) (r.register name operation) := by
  refine ⟨?_, pairwise_put h.sorted _ _, ?_⟩
  · intro normal known
    show (put (normalizeKey name) operation r.entries).lookup normal = some known ↔ _
    rw [isLatest_append_iff]
    by_cases heq : normalizeKey name = normal
    · subst heq
      simp [put_lookup_self]
    · rw [put_lookup_ne operation r.entries (Ne.symm heq), h.lookup]
      simp [heq]
  · intro a
    have hput : a ∈ (r.register name operation).aliases ↔ a = normalizeKey name ∨ a ∈ r.aliases :=
      mem_put_iff
    rw [hput, h.mem_aliases]
    constructor
    · rintro (rfl | ⟨e, he, hname⟩)
      · exact ⟨(name, operation), by simp, rfl⟩
      · exact ⟨e, List.mem_append_left _ he, hname⟩
    · rintro ⟨e, he, hname⟩
      rcases List.mem_append.mp he with he | he
      · exact .inr ⟨e, he, hname⟩
      · rw [List.mem_singleton.mp he] at hname
        exact .inl hname.symm

/-- So do many registrations. -/
theorem Reflects.registerAll (h : Reflects entries r) (history : List (String × Operation)) :
    Reflects (entries ++ history) (r.registerAll history) := by
  induction history generalizing entries r with
  | nil => simpa [Registry.registerAll] using h
  | cons entry history ih =>
    have hnext := ih (h.register entry.1 entry.2)
    rwa [List.append_assoc, List.singleton_append] at hnext

/-- A key resolves exactly to what was last registered under its alias. -/
theorem Reflects.resolve_eq_ok_iff (h : Reflects entries r) :
    r.resolve key = .ok operation ↔ IsLatest entries (normalizeKey key) operation := by
  rw [← h.lookup, Registry.resolve]
  cases r.entries.lookup (normalizeKey key) <;> simp

/-- A key that does not resolve has not been registered. -/
theorem Reflects.resolve_cases (h : Reflects entries r) (key : String) :
    (∃ operation, r.resolve key = .ok operation) ∨
      (∀ e ∈ entries, normalizeKey e.1 ≠ normalizeKey key) ∧
        r.resolve key = .error (.unsupported key) := by
  cases hlookup : r.entries.lookup (normalizeKey key) with
  | some operation => exact .inl ⟨operation, by rw [Registry.resolve, hlookup]⟩
  | none =>
    refine .inr ⟨?_, by rw [Registry.resolve, hlookup]⟩
    intro e he heq
    apply notMem_aliases_of_lookup hlookup
    exact (h.mem_aliases _).mpr ⟨e, he, heq⟩

/-- An alias that is listed resolves to what was last registered under it. -/
theorem Reflects.resolve_alias (h : Reflects entries r) {a : String} (ha : a ∈ r.aliases) :
    ∃ operation, IsLatest entries a operation ∧ r.resolve a = .ok operation := by
  obtain ⟨e, he, rfl⟩ := (h.mem_aliases a).mp ha
  have hnormal := normalizeKey_normalizeKey e.1
  rcases h.resolve_cases (normalizeKey e.1) with ⟨operation, hresolve⟩ | ⟨hnone, -⟩
  · have hlatest := h.resolve_eq_ok_iff.mp hresolve
    rw [hnormal] at hlatest
    exact ⟨operation, hlatest, hresolve⟩
  · exact absurd hnormal.symm (hnone e he)

/-- **A registry is a map on normalised keys in which the last write counts.**
    A key resolves to the operation of the last entry with its normal form, and
    if there is none the error names the key as it was given. The aliases listed
    are the normal forms of the entries, in strictly increasing order, and each
    of them resolves to the operation last registered under it. Registering on
    top of the four operations is registering after them. -/
theorem registerAll_exact :
    (∀ entries,
      (∀ key operation, (empty.registerAll entries).resolve key = .ok operation ↔
        IsLatest entries (normalizeKey key) operation) ∧
      (∀ key, (∃ operation, (empty.registerAll entries).resolve key = .ok operation) ∨
        (∀ e ∈ entries, normalizeKey e.1 ≠ normalizeKey key) ∧
          (empty.registerAll entries).resolve key = .error (.unsupported key)) ∧
      (empty.registerAll entries).aliases.Pairwise (· < ·) ∧
      (∀ a, a ∈ (empty.registerAll entries).aliases ↔ ∃ e ∈ entries, normalizeKey e.1 = a) ∧
      ∀ a ∈ (empty.registerAll entries).aliases, ∃ operation, IsLatest entries a operation ∧
        (empty.registerAll entries).resolve a = .ok operation) ∧
    ∀ history, standard.registerAll history = empty.registerAll (standardEntries ++ history) := by
  constructor
  · intro entries
    have hreflects : Reflects entries (empty.registerAll entries) :=
      reflects_empty.registerAll entries
    exact ⟨fun key operation => hreflects.resolve_eq_ok_iff, hreflects.resolve_cases,
      hreflects.sorted, hreflects.mem_aliases, fun a ha => hreflects.resolve_alias ha⟩
  · intro history
    exact (List.foldl_append ..).symm

/-- A word in two spellings, registered after the four operations: its capital
    sigma at the end becomes the final one, which the small sigma of a third
    spelling is not. -/
theorem registerAll_exact_samples :
    let history : List (String × Operation) := [(" ΣΟΦΟΣ", .add), ("σοφος ", .divide)];
    (standard.registerAll history).resolve "ΣΟΦΟΣ" = .ok .divide ∧
      (standard.registerAll history).resolve "ΣΟΦΟσ" = .error (.unsupported "ΣΟΦΟσ") ∧
      ∃ operation, (standard.registerAll history).resolve "σοφος" = .ok operation := by
  intro history
  have hname : normalizeKey "σοφος " = "σοφος" := by decide +kernel
  have hkeys : normalizeKey "ΣΟΦΟΣ" = "σοφος" := by decide +kernel
  have hother : ∀ e ∈ standardEntries ++ history, normalizeKey e.1 ≠ normalizeKey "ΣΟΦΟσ" := by
    decide +kernel
  rw [registerAll_exact.2]
  obtain ⟨hresolve, hcases, -, hmem, halias⟩ := registerAll_exact.1 (standardEntries ++ history)
  refine ⟨?_, ?_, ?_⟩
  · apply (hresolve _ _).mpr
    rw [hkeys]
    exact ⟨standardEntries ++ [(" ΣΟΦΟΣ", .add)], "σοφος ", [], rfl, hname, by simp⟩
  · rcases hcases "ΣΟΦΟσ" with ⟨operation, hok⟩ | ⟨-, herror⟩
    · obtain ⟨before, name, after, hsplit, heq, -⟩ := (hresolve _ _).mp hok
      exact absurd heq (hother (name, operation) (by simp [hsplit]))
    · exact herror
  · have halias_mem : "σοφος" ∈ (empty.registerAll (standardEntries ++ history)).aliases :=
      (hmem _).mpr ⟨("σοφος ", .divide), by simp [history], hname⟩
    obtain ⟨operation, -, hok⟩ := halias "σοφος" halias_mem
    exact ⟨operation, hok⟩

end Registry

end PostfixCalc
