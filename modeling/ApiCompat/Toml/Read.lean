import ApiCompat.Toml.Number
import ApiCompat.Toml.Table
import ApiCompat.Toml.Text

/-!
# Reading TOML

A document is a list of statements, each on a line: headers of tables, headers
of elements of arrays of tables, and keys with values.  The statements then
fill the table that the document stands for.
-/

set_option autoImplicit false

namespace ApiCompat.Toml

/-! ## Values -/

/-- How many arrays and inline tables may be inside each other. -/
def nestingLimit : Nat := 79

mutual

/-- A value nested at most `room` deep, read in at most `steps` steps. -/
def readValue (steps room : Nat) (text : List Char) : Option (Toml × List Char) :=
  match steps with
  | 0 => none
  | steps + 1 =>
      match text with
      | 't' :: 'r' :: 'u' :: 'e' :: rest => some (.boolean true, rest)
      | 'f' :: 'a' :: 'l' :: 's' :: 'e' :: rest => some (.boolean false, rest)
      | '[' :: rest =>
          if room = 0 then none
          else (readItems steps (room - 1) rest).map fun cut => (.array cut.1, cut.2)
      | '\x7b' :: rest =>
          if room = 0 then none
          else
            match skipSpace rest with
            | '\x7d' :: after => some (.table [], after)
            | inside => do
                let (pairs, after) ← readPairs steps (room - 1) inside
                return (← tableOf? pairs, after)
      | text =>
          match readString? text with
          | some (content, after) => some (.string content, after)
          | none => readNumber? text
termination_by structural steps

/-- Items up to the closing bracket; a comma may stand after the last one. -/
def readItems (steps room : Nat) (text : List Char) : Option (List Toml × List Char) :=
  match steps with
  | 0 => none
  | steps + 1 =>
      match skipLayout false text with
      | ']' :: after => some ([], after)
      | inside => do
          let (first, rest) ← readValue steps room inside
          match skipLayout false rest with
          | ',' :: rest =>
              let (later, after) ← readItems steps room rest
              return (first :: later, after)
          | ']' :: after => return ([first], after)
          | _ => none
termination_by structural steps

def readPairs (steps room : Nat) (text : List Char) :
    Option (List (List String × Toml) × List Char) :=
  match steps with
  | 0 => none
  | steps + 1 => do
      let (key, rest) ← readKey? text
      match rest with
      | '=' :: rest =>
          let (value, rest) ← readValue steps room (skipSpace rest)
          match skipSpace rest with
          | ',' :: rest =>
              let (later, after) ← readPairs steps room rest
              return ((key, value) :: later, after)
          | '\x7d' :: after => return ([(key, value)], after)
          | _ => none
      | _ => none
termination_by structural steps

end

/-! ## Statements -/

inductive Statement where
  | table (path : List String)
  | element (path : List String)
  | assign (key : List String) (value : Toml)

/-- A statement at the start of a line, up to what may follow it on the line. -/
def readStatement? : List Char → Option (Statement × List Char)
  | '[' :: '[' :: rest => do
      let (path, rest) ← readKey? rest
      match rest with
      | ']' :: ']' :: after => return (.element path, after)
      | _ => none
  | '[' :: rest => do
      let (path, rest) ← readKey? rest
      match rest with
      | ']' :: after => return (.table path, after)
      | _ => none
  | text => do
      let (key, rest) ← readKey? text
      match rest with
      | '=' :: rest =>
          let value := skipSpace rest
          let (value, after) ← readValue (2 * value.length + 1) nestingLimit value
          return (.assign key value, after)
      | _ => none

def readStatements : Nat → List Char → Option (List Statement)
  | 0, _ => none
  | lines + 1, text =>
      if text.isEmpty then some []
      else
        match endOfLine? text with
        | some rest => readStatements lines rest
        | none => do
            let (statement, rest) ← readStatement? (skipSpace text)
            let later ← readStatements lines (← endOfLine? rest)
            return statement :: later

/-! ## Documents -/

/-- A document that is being read: the entries so far, and the path of the table that values go
to. -/
structure Draft where
  path : List String
  root : Entries

def Draft.add (draft : Draft) : Statement → Option Draft
  | .table path => do
      let (front, name) ← splitLast? path
      return { path, root := ← openTable front name draft.root }
  | .element path => do
      let (front, name) ← splitLast? path
      return { path, root := ← openElement front name draft.root }
  | .assign key value => do
      let (front, name) ← splitLast? key
      let root ← changeAt false (fun _ entries => assign front name value entries) draft.path
        .header draft.root
      return { draft with root }

def read (text : String) : Option Toml := do
  let chars := text.toList
  let chars := if chars.head? = some '\ufeff' then chars.drop 1 else chars
  let statements ← readStatements (chars.length + 1) chars
  let draft ← statements.foldlM Draft.add { path := [], root := [] }
  return .table (finishAll draft.root)

end ApiCompat.Toml
