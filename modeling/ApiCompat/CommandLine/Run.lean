import ApiCompat.Compare.Api
import ApiCompat.CommandLine.Arguments
import ApiCompat.FileTree
import ApiCompat.Settings
import ApiCompat.Signature.Read
import ApiCompat.Signature.Write

/-!
# Running commands

A command reads files and gives an outcome: an exit code, what it prints, and
the message of the error that ended it.  `check` ends with one if some report
has errors; whatever cannot be read or compared ends a command with two.
-/

set_option autoImplicit false

namespace ApiCompat.CommandLine

structure Outcome where
  exitCode : Nat
  output : String
  error : Option String := none
deriving DecidableEq

/-! ## Errors -/

inductive Failure where
  | unreadable (path : String) (cause : FileFailure)
  | unwritable (path : String) (cause : FileFailure)
  | malformed (path : String) (fault : Fault)
  | settings
  | modes (mismatch : ModeMismatch)
deriving DecidableEq

/-- The failure in messages.  The cause of a file failure is given by the failure and once more
on its own; details of unusable settings are left out. -/
def Failure.message : Failure → String
  | unreadable path cause =>
      "Failed to read file " ++ path ++ ": " ++ cause.message ++ ": " ++ cause.message
  | unwritable path cause =>
      "writing " ++ path ++ ": IO error: " ++ cause.message ++ ": " ++ cause.message
  | malformed path fault => fault.message path
  | settings => "Invalid configuration:"
  | modes mismatch => mismatch.message

/-- A failure with what was being done. -/
structure CommandError where
  doing : Option String := none
  failure : Failure
deriving DecidableEq

def CommandError.message (error : CommandError) : String :=
  match error.doing with
  | some doing => doing ++ ": " ++ error.failure.message
  | none => error.failure.message

def failed (output : String) (error : CommandError) : Outcome :=
  { exitCode := 2, output, error := some error.message }

/-! ## Reading -/

def readApi (files : FileReader) (nullMode : Option NullMode) (path : String) :
    Except Failure Api :=
  match files path with
  | .error cause => .error (.unreadable path cause)
  | .ok text =>
      match Signature.read path text nullMode with
      | .error fault => .error (.malformed path fault)
      | .ok api => .ok api

def loadApi (files : FileReader) (nullMode : Option NullMode) (path : String) :
    Except CommandError Api :=
  match readApi files nullMode path with
  | .error failure => .error { doing := some ("parsing " ++ path), failure }
  | .ok api => .ok api

def compareFiles (files : FileReader) (nullMode : Option NullMode) (previous current : String) :
    Except Failure Report := do
  let before ← readApi files nullMode previous
  let after ← readApi files nullMode current
  match before.compare after with
  | .error mismatch => .error (.modes mismatch)
  | .ok report => .ok report

def readSettings (files : FileReader) (path : String) : Except Failure Settings :=
  match files path with
  | .error cause => .error (.unreadable path cause)
  | .ok text =>
      match Settings.read text with
      | none => .error .settings
      | some settings => .ok settings

def loadSettings (files : FileReader) (path : String) : Except CommandError Settings :=
  match readSettings files path with
  | .error failure => .error { doing := some ("loading config " ++ path), failure }
  | .ok settings => .ok settings

def isThere (files : FileReader) (path : String) : Bool :=
  match files path with
  | .error .notFound => false
  | _ => true

/-- The settings of the file that is named, else of the default file if it is there. -/
def chooseSettings (files : FileReader) : Option String → Except CommandError Settings
  | some path => loadSettings files path
  | none => if isThere files defaultSettings then loadSettings files defaultSettings else .ok {}

/-! ## Checking -/

def overrideSettings (settings : Settings) (arguments : CheckArguments) : Settings where
  nullMode := arguments.nullMode.or settings.nullMode
  policy := settings.policy.merge {
    suppress := arguments.suppress
    errors := arguments.errors
    warningsAsErrors := arguments.warningsAsErrors }

/-- Prints the reports in order until one cannot be made; `hasErrors` says whether a report before
had errors. -/
def printReports (format : OutputFormat) (policy : Policy) (output : String) (hasErrors : Bool) :
    List (Except ModeMismatch Report) → Outcome
  | [] => { exitCode := if hasErrors then 1 else 0, output }
  | .error mismatch :: _ => failed output { failure := .modes mismatch }
  | .ok report :: rest =>
      let graded := policy.apply report
      printReports format policy (output ++ formatReport format false graded ++ "\n")
        (hasErrors || graded.hasErrors) rest

def loadCheck (files : FileReader) (arguments : CheckArguments) :
    Except CommandError (Settings × Api × List Api) := do
  let settings := overrideSettings (← chooseSettings files arguments.config) arguments
  let previous ← loadApi files settings.nullMode arguments.previous
  let currents ← arguments.currents.mapM (loadApi files settings.nullMode)
  return (settings, previous, currents)

def check (files : FileReader) (arguments : CheckArguments) : Outcome :=
  match loadCheck files arguments with
  | .error error => failed "" error
  | .ok (settings, previous, currents) =>
      printReports arguments.format settings.policy "" false (previous.compareAll currents)

/-! ## Commands -/

def parse (files : FileReader) (path : String) (nullMode : Option NullMode)
    (format : OutputFormat) : Outcome :=
  match loadApi files nullMode path with
  | .error error => failed "" error
  | .ok api => { exitCode := 0, output := formatApi format false api ++ "\n" }

def format (files : FileReader) (path : String) (nullMode : Option NullMode) : Outcome :=
  match loadApi files nullMode path with
  | .error error => failed "" error
  | .ok api => { exitCode := 0, output := Signature.write api }

def saved (path : String) : Option FileFailure → Outcome
  | none => { exitCode := 0, output := "Configuration saved to " ++ path ++ "\n" }
  | some cause => failed "" { failure := .unwritable path cause }

def answer (files : FileReader) : Query → Outcome
  | .check arguments => check files arguments
  | .parse path nullMode outputFormat => parse files path nullMode outputFormat
  | .format path nullMode => format files path nullMode

/-- Runs a command line on a tree of files: its outcome, and the files afterwards. -/
def run (tree : FileTree) (words : List String) : Outcome × FileTree :=
  match read words with
  | .information => ({ exitCode := 0, output := "" }, tree)
  | .misuse => ({ exitCode := 2, output := "" }, tree)
  | .command (.query query) => (answer tree.read query, tree)
  | .command (.init path) =>
      match tree.write path (Settings.write {}) with
      | .ok after => (saved path none, after)
      | .error cause => (saved path (some cause), tree)

end ApiCompat.CommandLine
