import PostfixCalc.CommandLine
import PostfixCalc.Proofs.RequestText

/-!
# Ways to ask for an expression

An expression is given to the command line as an argument, in five spellings, or
by the path of a file with a request. However it is given, its text is taken as
it stands: it may look like an option, be the two hyphens that end the options,
or be empty. From there on there is one way only, so the answer is printed alike.

A path is not taken as it stands. If it looks like an option it is read as one,
and as no option may stand in place of a path, the arguments are refused.

Results:
* `Arguments.parse_attached`, `Arguments.parse_next`: the text of an expression
  in the argument of its option, and in the next one.
* `Arguments.parse_path`, `Arguments.exists_refusal_of_parse`: the arguments that
  are taken for the path of a file, and the refusal of all others.
* `CommandLine.Asks`: the ways to ask for an expression.
* `CommandLine.run_of_asks`: each of them prints its value or its error, but for
  a path that is refused.
* `CommandLine.path_like_option_refused`: a path that is refused.
-/

namespace PostfixCalc

/-! ## Arguments -/

namespace ArgumentShape

/-- A long option is cut at its first `=`, so the value may have others. -/
theorem long_append {name : List Char} (h : '=' ∉ name) (value : List Char) :
    long (name ++ '=' :: value) =
      option (OptionName.ofWord? name) (some (String.ofList value)) := by
  have hname : ∀ c ∈ name, (c != '=') = true := by
    intro c hc
    rw [bne_iff_ne]
    rintro rfl
    exact h hc
  rw [long, List.dropWhile_append_of_pos hname, List.takeWhile_append_of_pos hname]
  simp

theorem of_longEquals (expression : String) :
    of ("--expression=" ++ expression) =
      option (some (.value .expression)) (some expression) := by
  have hchars : ("--expression=" ++ expression).toList =
      '-' :: '-' :: ("expression".toList ++ '=' :: expression.toList) := by
    rw [String.toList_append]
    rfl
  have hlong : of ("--expression=" ++ expression) =
      long ("expression".toList ++ '=' :: expression.toList) := by
    rw [of, hchars]
    rfl
  rw [hlong, long_append (by decide), String.ofList_toList]
  rfl

theorem of_shortGlued (rest : String) :
    of ("-e" ++ rest) = option (some (.value .expression)) (attachedTo rest.toList) := by
  have hchars : ("-e" ++ rest).toList = '-' :: 'e' :: rest.toList := by
    rw [String.toList_append]
    rfl
  rw [of, hchars]
  rfl

theorem of_fileOption {name : String} (h : name = "-f" ∨ name = "--fichier") :
    of name = option (some (.value .file)) none := by
  rcases h with rfl | rfl <;> decide

/-- One `=` behind a letter is removed, and no more. -/
theorem of_shortEquals (expression : String) :
    of ("-e=" ++ expression) = option (some (.value .expression)) (some expression) := by
  have hsplit : "-e=" ++ expression = "-e" ++ ("=" ++ expression) := by
    rw [← String.append_assoc]
    rfl
  have hchars : ("=" ++ expression).toList = '=' :: expression.toList := by
    rw [String.toList_append]
    rfl
  rw [hsplit, of_shortGlued, hchars, attachedTo, String.ofList_toList]

/-- A value may be glued to the letter if no `=` is to be removed from it. -/
theorem attachedTo_of_head {value : String} (hne : value ≠ "")
    (hhead : value.toList.head? ≠ some '=') : attachedTo value.toList = some value := by
  cases hchars : value.toList with
  | nil => exact absurd (String.toList_eq_nil_iff.mp hchars) hne
  | cons c rest =>
    have hc : c ≠ '=' := by simpa [hchars] using hhead
    have hglued : attachedTo (c :: rest) = some (String.ofList (c :: rest)) := by
      simp [attachedTo, hc]
    rw [hglued, ← hchars, String.ofList_toList]

/-- All but a hyphen with something behind it is plain. -/
theorem of_eq_plain_iff {argument : String} :
    of argument = plain ↔ (argument.toList.head? = some '-' → argument = "-") := by
  have hlong (body : List Char) : long body ≠ plain := by
    rw [long]
    split <;> rintro ⟨⟩
  have hshort (letter : Char) (rest : List Char) : short letter rest ≠ plain := by
    rw [short]
    split <;> rintro ⟨⟩
  rw [of, ← String.toList_inj]
  generalize argument.toList = cs
  split
  · simp
  · simp [hlong]
  · simp [hshort]
  · next hletter =>
    refine iff_of_true rfl fun hhead => ?_
    obtain ⟨rest, rfl⟩ := List.head?_eq_some_iff.mp hhead
    rcases rest with _ | ⟨c, rest⟩
    · rfl
    · exact absurd rfl (hletter c rest)

end ArgumentShape

/-- A run goes on from the state after its first argument. -/
theorem ArgumentReading.foldlM_of_step {s s' : ArgumentReading} {argument : String}
    (h : s.step argument = .ok s') (arguments : List String) :
    (argument :: arguments).foldlM step s = arguments.foldlM step s' := by
  rw [List.foldlM_cons, h]
  rfl

namespace Arguments

open ArgumentReading (foldlM_of_step step_of_awaiting)

/-- The text of an expression may stand in the argument of its option. -/
theorem parse_attached {argument text : String}
    (h : ArgumentShape.of argument = .option (some (.value .expression)) (some text)) :
    parse [argument] = .ok ⟨.none, some text⟩ := by
  have hstep : ArgumentReading.start.step argument = .ok ⟨⟨.none, some text⟩, .none, false⟩ := by
    simp only [ArgumentReading.step, h]
    rfl
  rw [parse, foldlM_of_step hstep]
  rfl

/-- An option without a value in its argument awaits one. -/
theorem step_start_of_option {name : String} {option : ValueOption}
    (h : ArgumentShape.of name = .option (some (.value option)) .none) :
    ArgumentReading.start.step name = .ok ⟨.none, some ⟨option, .none⟩, false⟩ := by
  simp only [ArgumentReading.step, h]
  rfl

/-- The argument behind the option of an expression is its text, whatever it
    looks like. -/
theorem parse_next {name : String}
    (h : ArgumentShape.of name = .option (some (.value .expression)) .none) (text : String) :
    parse [name, text] = .ok ⟨.none, some text⟩ := by
  rw [parse, foldlM_of_step (step_start_of_option h),
    foldlM_of_step (step_of_awaiting text rfl rfl)]
  rfl

/-- An argument may be a path if it is not empty, and a hyphen at its start is
    all of it. Any file has such a path, as `./` may stand in front. -/
def IsPath (argument : String) : Prop :=
  argument ≠ "" ∧ (argument.toList.head? = some '-' → argument = "-")

instance : DecidablePred IsPath := fun _ => inferInstanceAs (Decidable (_ ∧ _))

/-- The argument behind the option of a file is its path if it may be one. -/
theorem parse_path {name path : String}
    (h : ArgumentShape.of name = .option (some (.value .file)) .none) (hpath : IsPath path) :
    parse [name, path] = .ok ⟨some path, .none⟩ := by
  obtain ⟨hne, hhyphen⟩ := hpath
  have hshape : ArgumentShape.of path = .plain := ArgumentShape.of_eq_plain_iff.mpr hhyphen
  have hstep : (ArgumentReading.mk .none (some ⟨.file, .none⟩) false).step path =
      .ok ⟨.none, some ⟨.file, some path⟩, false⟩ := by
    simp only [ArgumentReading.step, hshape]
    rfl
  have hset : Arguments.none.set .file path = .ok ⟨some path, .none⟩ := by
    simp only [set, hne]
    rfl
  rw [parse, foldlM_of_step (step_start_of_option h), foldlM_of_step hstep]
  change (Arguments.none.set .file path >>= _) = _
  rw [hset]
  rfl

/-- If it may not be one, there is no path. -/
theorem exists_refusal_of_parse {name path : String}
    (h : ArgumentShape.of name = .option (some (.value .file)) .none) (hpath : ¬ IsPath path) :
    ∃ refusal, parse [name, path] = .error refusal := by
  rw [parse, foldlM_of_step (step_start_of_option h)]
  cases hshape : ArgumentShape.of path with
  | terminator =>
    -- the options are ended with the path still awaited
    have hstep : (ArgumentReading.mk .none (some ⟨.file, .none⟩) false).step path =
        .ok ⟨.none, some ⟨.file, .none⟩, true⟩ := by
      simp only [ArgumentReading.step, hshape]
      rfl
    rw [foldlM_of_step hstep]
    exact ⟨.invalidValue, rfl⟩
  | option next attached =>
    -- nor is an option taken while it is awaited
    have hstep : ∃ refusal,
        (ArgumentReading.mk .none (some ⟨.file, .none⟩) false).step path = .error refusal := by
      simp only [ArgumentReading.step, hshape]
      rcases next with _ | _ | _ | _ <;> rcases attached with _ | text <;> exact ⟨_, rfl⟩
    obtain ⟨refusal, hrefusal⟩ := hstep
    rw [List.foldlM_cons, hrefusal]
    exact ⟨refusal, rfl⟩
  | plain =>
    -- what is plain and no path is empty
    have hempty : path = "" := by
      by_contra hne
      exact hpath ⟨hne, ArgumentShape.of_eq_plain_iff.mp hshape⟩
    subst hempty
    exact ⟨.invalidValue, rfl⟩

/-- What stands behind the option of a file may be a path. Of other arguments
    nothing is asked. -/
def TakesPath : List String → Prop
  | [name, path] => name = "-f" ∨ name = "--fichier" → IsPath path
  | _ => True

/-- A path that may not be one is the end of all arguments. -/
theorem exists_refusal_of_not_takesPath {arguments : List String} (h : ¬ TakesPath arguments) :
    ∃ refusal, parse arguments = .error refusal := by
  unfold TakesPath at h
  split at h
  · next name path =>
    obtain ⟨hname, hpath⟩ := Classical.not_imp.mp h
    exact exists_refusal_of_parse (ArgumentShape.of_fileOption hname) hpath
  · exact absurd trivial h

end Arguments

/-! ## Files -/

namespace Request

/-- The text is that of an object with the shape of a request, which gives the
    expression among whatever else it gives. -/
def Holds (s expression : String) : Prop :=
  ∃ (q : Request) (members : List (List Json.Piece × Json.Value)),
    (Json.Value.object members).WrittenAs s.toList ∧ q.HasShape (.object members) ∧
      q.expression = some expression

/-- A text is read back from its bytes. -/
theorem ofFile_toUTF8 (s : String) : ofFile (some s.toUTF8) = read s := by
  have hs : String.fromUTF8? s.toUTF8 = some s := by
    unfold String.fromUTF8?
    rw [String.toUTF8_eq_toByteArray, dif_pos s.isValidUTF8]
    rfl
  rw [ofFile, Option.bind_some, hs]

/-- The expression goes before the rest of a request. -/
theorem ofRequest_of_holds {s expression : String} (h : Holds s expression) :
    (ofFile (some s.toUTF8) >>= Job.ofRequest) = .ok (.expression expression) := by
  obtain ⟨⟨operation, numbers, matrixA, matrixB, _⟩, members, hwritten, hshape, rfl⟩ := h
  rw [ofFile_toUTF8, read_eq_ok_iff.mpr ⟨_, hwritten, hshape⟩]
  rfl

/-- A file with one more field. -/
theorem holds_two_fields :
    Holds "\x7b\"numbers\": [], \"expression\": \"--1\"\x7d" "--1" := by
  have hread : Json.Value.read? "\x7b\"numbers\": [], \"expression\": \"--1\"\x7d".toList =
      some (.object [("numbers".toList.map .char, .array []),
        ("expression".toList.map .char, .string ("--1".toList.map .char))]) := by cbv
  have hfields : ofValue? (.object [("numbers".toList.map .char, .array []),
      ("expression".toList.map .char, .string ("--1".toList.map .char))]) =
      some ⟨none, some [], none, none, some "--1"⟩ := by cbv
  exact ⟨_, _, Json.Value.read?_eq_some_iff.mp hread, ofValue?_eq_some_iff.mp hfields, rfl⟩

end Request

/-! ## Ways to ask -/

namespace CommandLine

variable {contents : String → Option ByteArray} {expression : String} {arguments : List String}

/-- The arguments ask for the expression: by an option with its text, or by the
    path of a file that holds it. A text that is glued to the letter of its
    option is not empty and does not start with `=`. Of the path nothing is
    asked here, so that it may look like an option. -/
inductive Asks (contents : String → Option ByteArray) (expression : String) :
    List String → Prop
  | short : Asks contents expression ["-e", expression]
  | long : Asks contents expression ["--expression", expression]
  | longEquals : Asks contents expression ["--expression=" ++ expression]
  | shortEquals : Asks contents expression ["-e=" ++ expression]
  | shortGlued : expression ≠ "" → expression.toList.head? ≠ some '=' →
      Asks contents expression ["-e" ++ expression]
  | file {name path s : String} : name = "-f" ∨ name = "--fichier" →
      contents path = some s.toUTF8 → Request.Holds s expression →
      Asks contents expression [name, path]

open ArgumentShape (of_fileOption of_longEquals of_shortEquals of_shortGlued attachedTo_of_head)
open Arguments (TakesPath parse_attached parse_next parse_path)

/-- However an expression is asked for, its text reaches the job unchanged, if
    the path is taken for one. -/
theorem job_of_asks (h : Asks contents expression arguments) (hpath : TakesPath arguments) :
    ∃ a, Arguments.parse arguments = .ok a ∧
      job? contents a = some (.ok (.expression expression)) := by
  cases h with
  | short => exact ⟨_, parse_next (by decide) expression, rfl⟩
  | long => exact ⟨_, parse_next (by decide) expression, rfl⟩
  | longEquals => exact ⟨_, parse_attached (of_longEquals expression), rfl⟩
  | shortEquals => exact ⟨_, parse_attached (of_shortEquals expression), rfl⟩
  | shortGlued hne hhead =>
    have hshape := of_shortGlued expression
    rw [attachedTo_of_head hne hhead] at hshape
    exact ⟨_, parse_attached hshape, rfl⟩
  | file hname hcontents hholds =>
    refine ⟨_, parse_path (of_fileOption hname) (hpath hname), ?_⟩
    simp only [job?, hcontents, Request.ofRequest_of_holds hholds]

/-- From there on all ways are one. -/
theorem run_eq_report (h : Asks contents expression arguments) (hpath : TakesPath arguments) :
    run contents arguments =
      .ok (some (report ((Expression.evaluate expression).map .scalar))) := by
  obtain ⟨a, hparse, hjob⟩ := job_of_asks h hpath
  rw [run, hparse]
  change Except.ok ((job? contents a).map execute) = _
  rw [hjob]
  rfl

/-- **Each way to ask for an expression prints its value**, or the message of
    its error with the code of a failure, as long as a path is not empty and has
    a hyphen at its start only if it is nothing else. Behind any other path the
    arguments are refused, whatever is in the files. -/
theorem run_of_asks (h : Asks contents expression arguments) :
    (TakesPath arguments →
      (∀ v, Expression.evaluate expression = .ok v →
        run contents arguments = .ok (some ⟨0, "Résultat : " ++ Scalar.text v ++ "\n", ""⟩)) ∧
      ∀ e, Expression.evaluate expression = .error e →
        run contents arguments = .ok (some ⟨1, "", "Erreur : " ++ e.message ++ "\n"⟩)) ∧
    (¬ TakesPath arguments → ∃ refusal, ∀ files, run files arguments = .error refusal) := by
  constructor
  · intro hpath
    rw [run_eq_report h hpath]
    constructor
    · intro v hv
      rw [hv]
      rfl
    · intro e he
      rw [he]
      rfl
  · intro hpath
    obtain ⟨refusal, hrefusal⟩ := Arguments.exists_refusal_of_not_takesPath hpath
    refine ⟨refusal, fun files => ?_⟩
    rw [run, hrefusal]
    rfl

/-- A text may look like an option, be the two hyphens or be empty, and may
    stand in a file beside other fields. A path may be a hyphen, but not two. -/
theorem run_of_asks_samples :
    let files : String → Option ByteArray :=
      fun _ => some "\x7b\"numbers\": [], \"expression\": \"--1\"\x7d".toUTF8;
    run files ["--expression", "-2 * 3"] = .ok (some ⟨0, "Résultat : -6\n", ""⟩) ∧
      run files ["-e", "--"] =
        .ok (some ⟨1, "", "Erreur : pile vide: opérandes manquants pour 'u-'\n"⟩) ∧
      run files ["-e="] =
        .ok (some ⟨1, "", "Erreur : expression invalide (0 valeur(s) sur la pile)\n"⟩) ∧
      run files ["-f", "-"] = .ok (some ⟨0, "Résultat : 1\n", ""⟩) ∧
      ∃ refusal, run files ["--fichier", "--"] = .error refusal := by
  intro files
  have hproduct : Expression.evaluate "-2 * 3" = .ok (-6) := by decide +kernel
  have hhyphens : Expression.evaluate "--" = .error (.machine (.underflow "u-")) := by
    decide +kernel
  have hempty : Expression.evaluate "" = .error (.machine (.malformed 0)) := by decide +kernel
  have hone : Expression.evaluate "--1" = .ok 1 := by decide +kernel
  have hhyphen : Asks files "--1" ["-f", "-"] := .file (.inl rfl) rfl Request.holds_two_fields
  have htwo : Asks files "--1" ["--fichier", "--"] :=
    .file (.inr rfl) rfl Request.holds_two_fields
  have hrefused : ¬ TakesPath ["--fichier", "--"] := fun h => absurd (h (.inr rfl)) (by decide)
  obtain ⟨refusal, hrefusal⟩ := (run_of_asks htwo).2 hrefused
  exact ⟨((run_of_asks .long).1 (by simp [TakesPath])).1 _ hproduct,
    ((run_of_asks .short).1 (by simp [TakesPath])).2 _ hhyphens,
    ((run_of_asks .shortEquals).1 trivial).2 _ hempty,
    ((run_of_asks hhyphen).1 fun _ => by decide).1 _ hone, refusal, hrefusal files⟩

/-- Without a condition on the path the value need not be printed: the path
    `-r.json` is read as an option, which is unknown. -/
theorem path_like_option_refused :
    ¬ ∀ (contents : String → Option ByteArray) (expression : String) (arguments : List String),
      Asks contents expression arguments → ∀ v, Expression.evaluate expression = .ok v →
        run contents arguments = .ok (some ⟨0, "Résultat : " ++ Scalar.text v ++ "\n", ""⟩) := by
  intro h
  have hasks : Asks
      (fun _ => some "\x7b\"numbers\": [], \"expression\": \"--1\"\x7d".toUTF8) "--1"
      ["-f", "-r.json"] := .file (.inl rfl) rfl Request.holds_two_fields
  have hrefused : ∀ contents, run contents ["-f", "-r.json"] = .error .unknownArgument :=
    fun _ => rfl
  have hone : Expression.evaluate "--1" = .ok 1 := by decide +kernel
  have hprinted := h _ _ _ hasks 1 hone
  rw [hrefused] at hprinted
  cases hprinted

end CommandLine

end PostfixCalc
