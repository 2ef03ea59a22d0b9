import ApiCompat.CommandLine.Run

/-!
# The program

Reads the files that a command may need, runs the command on their contents,
and prints the outcome.
-/

set_option autoImplicit false

namespace ApiCompat.CommandLine

/-- The files that a command may read. -/
def Query.inputs : Query → List String
  | .check arguments =>
      arguments.config.getD defaultSettings :: arguments.previous :: arguments.currents
  | .parse path _ _ => [path]
  | .format path _ => [path]

def failureOf : IO.Error → FileFailure
  | .noFileOrDirectory .. => .notFound
  | .inappropriateType .. => .isDirectory
  | _ => .notDirectory

def readText (path : String) : IO (Except FileFailure String) := do
  try
    match String.fromUTF8? (← IO.FS.readBinFile path) with
    | some text => return .ok text
    | none => return .error .notText
  catch error => return .error (failureOf error)

def readerOf (texts : List (String × Except FileFailure String)) : FileReader := fun path =>
  match texts.find? fun entry => entry.1 == path with
  | some entry => entry.2
  | none => .error .notFound

def report (outcome : Outcome) : IO UInt32 := do
  IO.print outcome.output
  match outcome.error with
  | some message => IO.eprintln ("Error: " ++ message)
  | none => pure ()
  return UInt32.ofNat outcome.exitCode

def saveDefaults (path : String) : IO Outcome := do
  try
    IO.FS.writeFile path (Settings.write {})
    return saved path none
  catch error => return saved path (some (failureOf error))

def perform : Command → IO UInt32
  | .query query => do
      let texts ← query.inputs.mapM fun path => do return (path, ← readText path)
      report (answer (readerOf texts) query)
  | .init path => do report (← saveDefaults path)

end ApiCompat.CommandLine

def main (words : List String) : IO UInt32 := do
  match ApiCompat.CommandLine.read words with
  | .command command => ApiCompat.CommandLine.perform command
  | .information =>
      IO.println "api-compat: check, parse, format, init"
      return 0
  | .misuse =>
      IO.eprintln "usage: api-compat (check | parse | format | init | help) ..."
      return 2
