import ApiCompat.Nullness
import ApiCompat.Presentation

/-!
# Command lines

A command line names a command and gives its options and files.  Options may
stand before, between and after the files; `--` ends them.  An option takes its
value from the same word or from the next one, which must not begin with a
dash.  Only the options for codes may be repeated.
-/

set_option autoImplicit false

namespace ApiCompat.CommandLine

structure CheckArguments where
  previous : String
  currents : List String
  nullMode : Option NullMode
  config : Option String
  suppress : List UInt32
  errors : List UInt32
  warningsAsErrors : Bool
  format : OutputFormat

inductive Query where
  | check (arguments : CheckArguments)
  | parse (path : String) (nullMode : Option NullMode) (format : OutputFormat)
  | format (path : String) (nullMode : Option NullMode)

inductive Command where
  | query (query : Query)
  | init (output : String)

inductive Request where
  | command (command : Command)
  /-- Help or the version. -/
  | information
  /-- Nothing that makes sense. -/
  | misuse

/-! ## Options -/

inductive ValueOption where
  | config
  | suppress
  | error
  | format
  | output
deriving DecidableEq

inductive Switch where
  | nullAware
  | legacy
  | warningsAsErrors
deriving DecidableEq

inductive OptionName where
  | valued (name : ValueOption)
  | switch (name : Switch)
  | help
deriving DecidableEq

structure OptionTable where
  long : List (String × OptionName)
  short : List (Char × OptionName)

def modeOptions : List (String × OptionName) :=
  [("null-aware", .switch .nullAware), ("legacy", .switch .legacy)]

def checkOptions : OptionTable where
  long := modeOptions ++
    [("config", .valued .config), ("suppress", .valued .suppress), ("error", .valued .error),
      ("warnings-as-errors", .switch .warningsAsErrors), ("format", .valued .format),
      ("help", .help)]
  short := [('c', .valued .config), ('f', .valued .format), ('h', .help)]

def parseOptions : OptionTable where
  long := modeOptions ++ [("format", .valued .format), ("help", .help)]
  short := [('f', .valued .format), ('h', .help)]

def formatOptions : OptionTable where
  long := modeOptions ++ [("help", .help)]
  short := [('h', .help)]

def initOptions : OptionTable where
  long := [("output", .valued .output), ("help", .help)]
  short := [('o', .valued .output), ('h', .help)]

/-! ## Words -/

structure Given where
  files : List String := []
  switches : List Switch := []
  config : Option String := none
  output : Option String := none
  format : Option OutputFormat := none
  suppress : List UInt32 := []
  errors : List UInt32 := []

inductive Words where
  | given (given : Given)
  | information
  | misuse

def splitSign : List Char → Bool × List Char
  | '+' :: digits => (false, digits)
  | '-' :: digits => (true, digits)
  | digits => (false, digits)

/-- A code: a decimal number of 32 bits, perhaps with a sign. -/
def readCode? (word : String) : Option UInt32 :=
  let (negative, digits) := splitSign word.toList
  let value := digits.foldl (fun sofar c => sofar * 10 + (c.toNat - '0'.toNat)) 0
  if digits.isEmpty ∨ !digits.all Char.isDigit then none
  else if negative ∧ value ≠ 0 then none
  else if value < 0x100000000 then some (UInt32.ofNat value)
  else none

def readPath? (word : String) : Option String := if word.isEmpty then none else some word

def giveOnce {α : Type} (before : Option α) (value? : Option α) : Option (Option α) :=
  match before, value? with
  | none, some value => some (some value)
  | _, _ => none

def Given.setValue (given : Given) (name : ValueOption) (word : String) : Option Given :=
  match name with
  | .config => (giveOnce given.config (readPath? word)).map fun config => { given with config }
  | .output => (giveOnce given.output (readPath? word)).map fun output => { given with output }
  | .format =>
      (giveOnce given.format (OutputFormat.ofName? word)).map fun format => { given with format }
  | .suppress =>
      (readCode? word).map fun code => { given with suppress := given.suppress ++ [code] }
  | .error => (readCode? word).map fun code => { given with errors := given.errors ++ [code] }

def Given.setSwitch (given : Given) (name : Switch) : Option Given :=
  if given.switches.contains name then none
  else some { given with switches := given.switches ++ [name] }

def Given.addFile (given : Given) (limit : Option Nat) (word : String) : Option Given :=
  if limit.any fun most => decide (most ≤ given.files.length) then none
  else (readPath? word).map fun path => { given with files := given.files ++ [path] }

def Given.addFiles (given : Given) (limit : Option Nat) (words : List String) : Option Given :=
  words.foldlM (fun given word => given.addFile limit word) given

/-- Goes on with what was given, if that made sense. -/
def continueWith (found : Option Given) (next : Given → Words) : Words :=
  match found with
  | some given => next given
  | none => .misuse

inductive Word where
  | endOfOptions
  /-- A long option with the value attached to it. -/
  | long (name : String) (value : Option String)
  /-- A short option and what follows it in the word. -/
  | short (name : Char) (more : List Char)
  | plain

def classify (word : String) : Word :=
  match word.toList with
  | ['-', '-'] => .endOfOptions
  | '-' :: '-' :: rest =>
      let name := rest.takeWhile (· != '=')
      match rest.dropWhile (· != '=') with
      | [] => .long (String.ofList name) none
      | _ :: value => .long (String.ofList name) (some (String.ofList value))
  | '-' :: name :: more => .short name more
  | _ => .plain

def isValue (word : String) : Bool :=
  match classify word with
  | .plain => true
  | _ => false

def findOption? {α : Type} [BEq α] (options : List (α × OptionName)) (name : α) :
    Option OptionName :=
  (options.find? fun entry => entry.1 == name).map Prod.snd

/-- The value attached to a short option; an equals sign before it is dropped. -/
def attachedValue : List Char → String
  | '=' :: value => String.ofList value
  | value => String.ofList value

/-- Reads the words of a command.  Words are taken in order, so of help and a mistake the first
one counts. -/
def readWords (options : OptionTable) (limit : Option Nat) : Given → List String → Words
  | given, [] => .given given
  | given, word :: rest =>
      match classify word with
      | .endOfOptions => continueWith (given.addFiles limit rest) .given
      | .plain =>
          continueWith (given.addFile limit word) fun given => readWords options limit given rest
      | .long name value =>
          match findOption? options.long name, value with
          | some .help, none => .information
          | some (.switch switch), none =>
              continueWith (given.setSwitch switch) fun given =>
                readWords options limit given rest
          | some (.valued option), some value =>
              continueWith (given.setValue option value) fun given =>
                readWords options limit given rest
          | some (.valued option), none => readValue option given rest
          | _, _ => .misuse
      | .short name more =>
          match findOption? options.short name, more with
          | some .help, _ => .information
          | some (.valued option), [] => readValue option given rest
          | some (.valued option), more =>
              continueWith (given.setValue option (attachedValue more)) fun given =>
                readWords options limit given rest
          | _, _ => .misuse
where
  /-- Takes the value of an option from the next word and goes on. -/
  readValue (option : ValueOption) : Given → List String → Words
    | _, [] => .misuse
    | given, value :: rest =>
        if isValue value then
          continueWith (given.setValue option value) fun given =>
            readWords options limit given rest
        else .misuse

/-! ## Commands -/

def Given.nullMode? (given : Given) : Option (Option NullMode) :=
  match given.switches.contains .nullAware, given.switches.contains .legacy with
  | true, true => none
  | true, false => some (some .nullAware)
  | false, true => some (some .legacy)
  | false, false => some none

def readCommand (options : OptionTable) (limit : Option Nat) (words : List String)
    (command? : Given → Option NullMode → Option Command) : Request :=
  match readWords options limit {} words with
  | .information => .information
  | .misuse => .misuse
  | .given given =>
      match given.nullMode?.bind (command? given) with
      | some command => .command command
      | none => .misuse

def defaultSettings : String := "sigcheck.toml"

def readCheck (words : List String) : Request :=
  readCommand checkOptions none words fun given nullMode =>
    match given.files with
    | previous :: current :: more =>
        some (.query (.check {
          previous, currents := current :: more, nullMode, config := given.config
          suppress := given.suppress, errors := given.errors
          warningsAsErrors := given.switches.contains .warningsAsErrors
          format := given.format.getD .text }))
    | _ => none

def readParse (words : List String) : Request :=
  readCommand parseOptions (some 1) words fun given nullMode =>
    match given.files with
    | [path] => some (.query (.parse path nullMode (given.format.getD .text)))
    | _ => none

def readFormat (words : List String) : Request :=
  readCommand formatOptions (some 1) words fun given nullMode =>
    match given.files with
    | [path] => some (.query (.format path nullMode))
    | _ => none

def readInit (words : List String) : Request :=
  readCommand initOptions (some 0) words fun given _ =>
    some (.init (given.output.getD defaultSettings))

def commandNames : List String := ["check", "parse", "format", "init", "help"]

def readHelp : List String → Request
  | [] => .information
  | [name] => if commandNames.contains name then .information else .misuse
  | _ => .misuse

def read : List String → Request
  | [] => .misuse
  | "check" :: words => readCheck words
  | "parse" :: words => readParse words
  | "format" :: words => readFormat words
  | "init" :: words => readInit words
  | "help" :: words => readHelp words
  | word :: _ =>
      match classify word with
      | .long name none => if name = "help" ∨ name = "version" then .information else .misuse
      | .short name _ => if name = 'h' ∨ name = 'V' then .information else .misuse
      | _ => .misuse

end ApiCompat.CommandLine
