import ApiCompat.Ordered.Map
import ApiCompat.Toml.Basic

/-!
# Tables of TOML while they are being filled

A table comes into being by its header, by the header of a table inside it, or
by a dotted key, and what may still be added to it depends on that.  A table
has one header only; dotted keys add only to tables that dotted keys made; and
nothing is given a value twice.
-/

set_option autoImplicit false

namespace ApiCompat.Toml

inductive TableOrigin where
  /-- By its own header, or as the whole document. -/
  | header
  /-- By the header of a table inside it. -/
  | inner
  /-- By a dotted key. -/
  | dotted
deriving DecidableEq

inductive Node where
  | value (content : Toml)
  | table (origin : TableOrigin) (entries : List (String × Node))
  /-- An array of tables: the finished ones, and the entries of the last one. -/
  | tables (finished : List Toml) (last : List (String × Node))

abbrev Entries : Type := List (String × Node)

mutual

def Node.finish : Node → Toml
  | .value content => content
  | .table _ entries => .table (finishAll entries)
  | .tables finished last => .array (finished ++ [.table (finishAll last)])
termination_by structural node => node

def finishAll : List (String × Node) → List (String × Toml)
  | [] => []
  | entry :: rest => finishEntry entry :: finishAll rest
termination_by structural entries => entries

def finishEntry : String × Node → String × Toml
  | (name, node) => (name, node.finish)
termination_by structural entry => entry

end

def nodeOf? (entries : Entries) (name : String) : Option Node :=
  (entries.find? fun entry => entry.1 == name).map Prod.snd

/-- Changes the table at the end of a path.  Missing tables are made on the way, as inner ones or
as dotted ones; of an array of tables the last one is meant.  A dotted path must not enter a table
that has a header. -/
def changeAt (dotted : Bool) (change : TableOrigin → Entries → Option Entries) :
    List String → TableOrigin → Entries → Option Entries
  | [], origin, entries => change origin entries
  | name :: path, _, entries =>
      match nodeOf? entries name with
      | none =>
          let origin := if dotted then TableOrigin.dotted else .inner
          (changeAt dotted change path origin []).map fun inside =>
            putEntry name (.table origin inside) entries
      | some (.value _) => none
      | some (.table origin inside) =>
          if dotted ∧ origin = .header then none
          else
            (changeAt dotted change path origin inside).map fun inside =>
              putEntry name (.table origin inside) entries
      | some (.tables finished last) =>
          (changeAt dotted change path .header last).map fun last =>
            putEntry name (.tables finished last) entries

def define (name : String) (node : Node) (entries : Entries) : Option Entries :=
  if (nodeOf? entries name).isSome then none else some (putEntry name node entries)

def assign (path : List String) (name : String) (content : Toml) (entries : Entries) :
    Option Entries :=
  changeAt true
    (fun origin entries =>
      if path.isEmpty ∨ origin = .dotted then define name (.value content) entries else none)
    path .header entries

def openTable (path : List String) (name : String) (root : Entries) : Option Entries :=
  changeAt false
    (fun _ entries =>
      match nodeOf? entries name with
      | none => some (putEntry name (.table .header []) entries)
      | some (.table .inner inside) => some (putEntry name (.table .header inside) entries)
      | some _ => none)
    path .header root

def openElement (path : List String) (name : String) (root : Entries) : Option Entries :=
  changeAt false
    (fun _ entries =>
      match nodeOf? entries name with
      | none => some (putEntry name (.tables [] []) entries)
      | some (.tables finished last) =>
          some (putEntry name (.tables (finished ++ [.table (finishAll last)]) []) entries)
      | some _ => none)
    path .header root

def splitLast? : List String → Option (List String × String)
  | [] => none
  | [name] => some ([], name)
  | first :: rest => (splitLast? rest).map fun cut => (first :: cut.1, cut.2)

def tableOf? (pairs : List (List String × Toml)) : Option Toml := do
  let entries ← pairs.foldlM
    (fun (entries : Entries) (pair : List String × Toml) =>
      (splitLast? pair.1).bind fun key => assign key.1 key.2 pair.2 entries) []
  return .table (finishAll entries)

end ApiCompat.Toml
