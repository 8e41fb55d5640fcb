/-!
# Arguments

The options of the command line are `-f`/`--fichier` with a path and
`-e`/`--expression` with a text. A value is the next argument, or stands in the
same argument: after `=`, or after the letter with or without `=`. The next
argument is a value of `-e` whatever it looks like, but of `-f` only if it does
not look like an option. Help and version are asked for by options too, and are
answered by a refusal of the other arguments.

An option whose value is the next argument is settled only when the argument
after that is taken up, or at the end: until then its faults do not count, and
an unknown argument goes first.

Results:
* `step_of_awaiting`: an awaited text is taken as it stands.
-/

namespace PostfixCalc

/-- The options that take a value. -/
inductive ValueOption where
  | file
  | expression
deriving DecidableEq, Repr

/-- An option by its name. -/
inductive OptionName where
  | value (option : ValueOption)
  | help
  | version
deriving DecidableEq, Repr

/-- Why the arguments are not taken. -/
inductive Refusal where
  /-- An option has no value, or an empty path. -/
  | invalidValue
  /-- Both options are given, or one of them twice. -/
  | conflict
  /-- The argument is no known option. -/
  | unknownArgument
  /-- An option that takes no value has one. -/
  | tooManyValues
  | help
  | version
deriving DecidableEq, Repr

/-- The values of the options. -/
structure Arguments where
  file : Option String
  expression : Option String
deriving DecidableEq, Repr

namespace Arguments

/-- No option is given. -/
def none : Arguments := ⟨.none, .none⟩

/-- The value of an option. -/
def get? (a : Arguments) : ValueOption → Option String
  | .file => a.file
  | .expression => a.expression

/-- Gives an option its value. It must not have one yet, and a path must not be empty. -/
def set (a : Arguments) (option : ValueOption) (value : String) : Except Refusal Arguments :=
  if (a.get? option).isSome then .error .conflict
  else
    match option with
    | .file => if value = "" then .error .invalidValue else .ok { a with file := some value }
    | .expression => .ok { a with expression := some value }

end Arguments

/-- The option of a letter. -/
def OptionName.ofLetter? (c : Char) : Option OptionName :=
  if c = 'f' then some (.value .file)
  else if c = 'e' then some (.value .expression)
  else if c = 'h' then some .help
  else if c = 'V' then some .version
  else none

/-- The option of a long name. -/
def OptionName.ofWord? (word : List Char) : Option OptionName :=
  if word = "fichier".toList then some (.value .file)
  else if word = "expression".toList then some (.value .expression)
  else if word = "help".toList then some .help
  else if word = "version".toList then some .version
  else none

/-- What an argument looks like. -/
inductive ArgumentShape where
  /-- The two hyphens that end the options. -/
  | terminator
  /-- An option, if its name is known, with the value in the same argument. -/
  | option (name : Option OptionName) (attached : Option String)
  /-- Anything else. -/
  | plain
deriving DecidableEq, Repr

namespace ArgumentShape

/-- A long option, cut at its first `=`. -/
def long (body : List Char) : ArgumentShape :=
  let name := body.takeWhile (· != '=')
  match body.dropWhile (· != '=') with
  | [] => option (OptionName.ofWord? name) none
  | _ :: value => option (OptionName.ofWord? name) (some (String.ofList value))

/-- The value that follows the letter of an option in the same argument. -/
def attachedTo : List Char → Option String
  | [] => none
  | '=' :: value => some (String.ofList value)
  | value => some (String.ofList value)

/-- An option by its letter. Only the letter of an option with a value has more
    than its name behind it, as the others are answered at once. -/
def short (letter : Char) (rest : List Char) : ArgumentShape :=
  match OptionName.ofLetter? letter with
  | some (.value o) => option (some (.value o)) (attachedTo rest)
  | name => option name none

/-- What an argument looks like: a hyphen alone is plain. -/
def of (argument : String) : ArgumentShape :=
  match argument.toList with
  | ['-', '-'] => terminator
  | '-' :: '-' :: body => long body
  | '-' :: letter :: rest => short letter rest
  | _ => plain

end ArgumentShape

/-- An option whose value is not in the same argument: still awaited, or given. -/
structure Pending where
  option : ValueOption
  value : Option String
deriving DecidableEq, Repr

/-- The state of reading the arguments. -/
structure ArgumentReading where
  settled : Arguments
  pending : Option Pending
  /-- Whether the options are ended. -/
  ended : Bool
deriving DecidableEq, Repr

namespace ArgumentReading

/-- The state before the first argument. -/
def start : ArgumentReading := ⟨.none, none, false⟩

/-- Settles the pending option. -/
def settle (s : ArgumentReading) : Except Refusal Arguments :=
  match s.pending with
  | none => .ok s.settled
  | some ⟨_, none⟩ => .error .invalidValue
  | some ⟨option, some value⟩ => s.settled.set option value

/-- Takes an option, after the pending one is settled. -/
def takeOption (s : ArgumentReading) (name : OptionName) (attached : Option String) :
    Except Refusal ArgumentReading :=
  match name, attached with
  | .value option, some value => do
    return { s with settled := ← (← s.settle).set option value, pending := none }
  | .value option, none => do
    return { s with settled := ← s.settle, pending := some ⟨option, none⟩ }
  | .help, none => do
    discard s.settle
    throw .help
  | .version, none => do
    discard s.settle
    throw .version
  | _, some _ => throw .tooManyValues

/-- The state after one more argument. -/
def step (s : ArgumentReading) (argument : String) : Except Refusal ArgumentReading :=
  if s.ended then .error .unknownArgument
  else if s.pending = some ⟨.expression, none⟩ then
    .ok { s with pending := some ⟨.expression, some argument⟩ }
  else
    match ArgumentShape.of argument with
    | .terminator => .ok { s with ended := true }
    | .option (some name) attached => s.takeOption name attached
    | .option none _ => .error .unknownArgument
    | .plain =>
      if s.pending = some ⟨.file, none⟩ then
        .ok { s with pending := some ⟨.file, some argument⟩ }
      else .error .unknownArgument

end ArgumentReading

/-- The options of a command line. The two options exclude each other. -/
def Arguments.parse (arguments : List String) : Except Refusal Arguments := do
  let s ← arguments.foldlM ArgumentReading.step .start
  let settled ← s.settle
  if settled.file.isSome && settled.expression.isSome then throw .conflict
  return settled

/-- The argument after `-e` is its value, whatever it looks like. -/
theorem ArgumentReading.step_of_awaiting {s : ArgumentReading} (argument : String)
    (hended : s.ended = false) (hpending : s.pending = some ⟨.expression, none⟩) :
    s.step argument = .ok { s with pending := some ⟨.expression, some argument⟩ } := by
  simp [step, hended, hpending]

end PostfixCalc
