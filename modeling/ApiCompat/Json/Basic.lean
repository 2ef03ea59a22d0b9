/-!
# JSON values

Objects keep the order of their fields and may repeat a name.  A number that
is written as a bare natural number is kept as such, because counts and lines
are written so; any other number is kept as its numeral.
-/

set_option autoImplicit false

namespace ApiCompat

inductive Json where
  | null
  | bool (value : Bool)
  | natural (value : Nat)
  /-- A number with a sign, a fraction or an exponent, as written. -/
  | numeral (text : String)
  | string (value : String)
  | array (items : List Json)
  | object (fields : List (String × Json))
  /-- Well-formed text that stands for no value: a string with half of a surrogate pair, or an
  object with such a name. -/
  | broken

namespace Json

instance : Inhabited Json := ⟨null⟩

def strings (texts : List String) : Json := array (texts.map string)

def orNull {α : Type} (encode : α → Json) : Option α → Json
  | none => null
  | some value => encode value

def fieldIfSome {α : Type} (name : String) (encode : α → Json) : Option α → List (String × Json)
  | none => []
  | some value => [(name, encode value)]

def fieldIfAny {α : Type} (name : String) (encode : α → Json) : List α → List (String × Json)
  | [] => []
  | items => [(name, array (items.map encode))]

/-- The value of a field; of repeated fields the first one counts. -/
def field? (name : String) : Json → Option Json
  | object fields => (fields.find? fun field => field.1 == name).map Prod.snd
  | _ => none

end Json

end ApiCompat
