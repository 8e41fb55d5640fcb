import PostfixCalc.CommandLine
import PostfixCalc.Window

/-!
# The program

Reads the arguments and the file that they name, prints what the command line
says and exits with its code. There is no screen to draw on: without a job the
program shows the modes of the window.
-/

open PostfixCalc

/-- The help text. -/
def helpText : String :=
  "Calculatrice RPN (f64) : fenêtre, ou calcul direct en ligne de commande

Usage: calculatrice_rpn [OPTIONS]

Options:
  -f, --fichier <FICHIER>        Fichier JSON de requête
  -e, --expression <EXPRESSION>  Expression à évaluer, ex: \"(3 + 4) * 2\"
  -h, --help                     Print help
  -V, --version                  Print version
"

/-- What a refusal prints: help and version on the standard output, the rest on
    the standard error, with exit code 2. -/
def refusalText : Refusal → Printed
  | .help => ⟨0, helpText, ""⟩
  | .version => ⟨0, CommandLine.versionText, ""⟩
  | _ => ⟨2, "", "error: arguments\n\n" ++ helpText⟩

/-- What stands in place of the window. -/
def windowText : Printed :=
  let labels := [Mode.expression, .reduce, .matrices].map Mode.label
  ⟨0, "Calculatrice RPN\n" ++ "\n".intercalate labels ++ "\n", ""⟩

/-- The bytes of a file, if it can be read. -/
def readContents (path : String) : IO (Option ByteArray) := do
  try return some (← IO.FS.readBinFile path)
  catch _ => return none

/-- Runs the command line. -/
def main (arguments : List String) : IO UInt32 := do
  let path := (Arguments.parse arguments).toOption.bind Arguments.file
  let bytes ← match path with
    | some path => readContents path
    | none => pure none
  let printed := match CommandLine.run (fun _ => bytes) arguments with
    | .ok (some printed) => printed
    | .ok none => windowText
    | .error refusal => refusalText refusal
  (← IO.getStdout).putStr printed.out
  (← IO.getStderr).putStr printed.err
  return printed.code
