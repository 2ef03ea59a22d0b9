import ApiCompat.Json.Basic
import ApiCompat.Json.Decode
import ApiCompat.Nullness
import ApiCompat.Policy
import ApiCompat.Toml.Read

/-!
# Settings

A settings file may force a null mode and states a policy.  Everything may be
left out, and what is not known is ignored.  A record is a table, or an array
of its fields in order, or a date or time, which gives no field; the name of a
null mode may also be the only name in a table, with something empty behind it.
-/

set_option autoImplicit false

namespace ApiCompat

structure Settings where
  /-- The null mode of all files; without it the header of each file decides. -/
  nullMode : Option NullMode := none
  policy : Policy := {}
deriving DecidableEq

namespace Settings

/-! ## Reading -/

/-- The field of a record, by its name in a table or its index in an array; a date or time has no
fields. -/
def field? (name : String) (index : Nat) : Toml → Option Toml
  | .table entries => (entries.find? fun entry => entry.1 == name).map Prod.snd
  | .array items => items[index]?
  | _ => none

def isRecord : Toml → Bool
  | .table _ => true
  | .array _ => true
  | .datetime _ => true
  | _ => false

def decodeField {α : Type} (record : Toml) (name : String) (index : Nat)
    (decode : Toml → Option α) (default : α) : Option α :=
  match field? name index record with
  | some value => decode value
  | none => some default

def decodeTruth : Toml → Option Bool
  | .boolean value => some value
  | _ => none

def decodeCode : Toml → Option UInt32
  | .integer value =>
      if 0 ≤ value ∧ value < 0x100000000 then some (UInt32.ofNat value.toNat) else none
  | _ => none

def decodeCodes : Toml → Option (List UInt32)
  | .array items => items.mapM decodeCode
  | _ => none

/-- Whether a value is an array or table without anything in it. -/
def isHollow : Toml → Bool
  | .array items => items.isEmpty
  | .table entries => entries.isEmpty
  | _ => false

def decodeMode : Toml → Option (Option NullMode)
  | .string name => (NullMode.ofName? name).map some
  | .table [(name, value)] => if isHollow value then (NullMode.ofName? name).map some else none
  | _ => none

def decodeParse (value : Toml) : Option (Option NullMode) :=
  if isRecord value then decodeField value "null_mode" 0 decodeMode none else none

def decodePolicy (value : Toml) : Option Policy :=
  if isRecord value then do
    let suppress ← decodeField value "suppress" 0 decodeCodes []
    let errors ← decodeField value "errors" 1 decodeCodes []
    let warningsAsErrors ← decodeField value "warnings_as_errors" 2 decodeTruth false
    return { suppress, errors, warningsAsErrors }
  else none

def decode (document : Toml) : Option Settings := do
  let nullMode ← decodeField document "parse" 0 decodeParse none
  let policy ← decodeField document "policy" 1 decodePolicy {}
  return { nullMode, policy }

def read (text : String) : Option Settings := (Toml.read text).bind decode

/-! ## Writing -/

def writeCodes (codes : List UInt32) : String :=
  match codes with
  | [] => "[]"
  | [code] => "[" ++ toString code.toNat ++ "]"
  | codes =>
      "[\n" ++ String.join (codes.map fun code => "    " ++ toString code.toNat ++ ",\n") ++ "]"

def writeTruth (value : Bool) : String := if value then "true" else "false"

def write (settings : Settings) : String :=
  "[parse]\n" ++
    (match settings.nullMode with
      | some mode => "null_mode = \"" ++ mode.name ++ "\"\n"
      | none => "") ++
    "\n[policy]\nsuppress = " ++ writeCodes settings.policy.suppress ++
    "\nerrors = " ++ writeCodes settings.policy.errors ++
    "\nwarnings_as_errors = " ++ writeTruth settings.policy.warningsAsErrors ++ "\n"

/-! ## JSON -/

def codesToJson (codes : List UInt32) : Json :=
  .array (codes.map fun code => .natural code.toNat)

def policyToJson (policy : Policy) : Json :=
  .object
    [("suppress", codesToJson policy.suppress), ("errors", codesToJson policy.errors),
      ("warnings_as_errors", .bool policy.warningsAsErrors)]

def toJson (settings : Settings) : Json :=
  .object
    [("parse", .object (Json.fieldIfSome "null_mode" (fun mode => .string mode.name)
        settings.nullMode)),
      ("policy", policyToJson settings.policy)]

def policyOfJson? : Decoder Policy := fun room json => do
  let record ← JsonRecord.ofJson? ["suppress", "errors", "warnings_as_errors"] room json
  return {
    suppress := ← record.withDefault "suppress" (Decoder.list Decoder.code) []
    errors := ← record.withDefault "errors" (Decoder.list Decoder.code) []
    warningsAsErrors := ← record.withDefault "warnings_as_errors" Decoder.truth false }

end Settings

end ApiCompat
