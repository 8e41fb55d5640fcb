import PostfixCalc.Arguments
import PostfixCalc.Job

/-!
# The command line

A job is asked for by a file with a request or by an expression. Its result is
printed on the standard output with exit code 0, or its error on the standard
error with exit code 1. Without a job the window is opened.

Results:
* `report_code_eq_zero_iff`: the exit code tells success from failure.
-/

namespace PostfixCalc

/-- What a process leaves behind. -/
structure Printed where
  code : UInt32
  out : String
  err : String
deriving DecidableEq, Repr

namespace CommandLine

/-- The name and version that `--version` prints. -/
def versionText : String := "calculatrice_rpn 0.1.0\n"

/-- The job that the arguments ask for, where `contents` gives the bytes of a
    file that can be read. A file goes before an expression. -/
def job? (contents : String → Option ByteArray) (a : Arguments) : Option (Except CalcError Job) :=
  match a.file with
  | some path => some (Request.ofFile (contents path) >>= Job.ofRequest)
  | none => a.expression.map fun text => .ok (.expression text)

/-- What is printed for a result or an error. -/
def report : Except CalcError Answer → Printed
  | .ok (.scalar x) => ⟨0, s!"Résultat : {Scalar.text x}\n", ""⟩
  | .ok (.grid g) => ⟨0, s!"Résultat de l'opération sur les matrices :\n{g.text}\n", ""⟩
  | .error e => ⟨1, "", s!"Erreur : {e.message}\n"⟩

theorem report_code_eq_zero_iff {r : Except CalcError Answer} :
    (report r).code = 0 ↔ ∃ a, r = .ok a := by
  rcases r with e | a | g <;> simp [report]

/-- What is printed for a job, or for the error that stands in its place. -/
def execute (job : Except CalcError Job) : Printed :=
  report (job >>= Job.run)

/-- What the command line does: it is refused, or prints, or asks for the window. -/
def run (contents : String → Option ByteArray) (arguments : List String) :
    Except Refusal (Option Printed) := do
  let a ← Arguments.parse arguments
  return (job? contents a).map execute

end CommandLine

end PostfixCalc
