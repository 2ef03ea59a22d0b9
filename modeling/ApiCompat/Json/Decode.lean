import ApiCompat.Decimal.Range
import ApiCompat.Json.Basic

/-!
# Decoding JSON values

A decoder gives the value that a piece of JSON stands for.  Values may be
nested at most `nestingLimit` containers deep; what is left of the limit is
passed down as `room`, and decoding ends where it is used up.

A record is an object, whose other fields are ignored and whose own fields
may not be repeated, or an array of its fields in order.  A word is a string;
it may also be wrapped as the name of the only field of an object.
-/

set_option autoImplicit false

namespace ApiCompat

/-- How many containers may be inside each other. -/
def nestingLimit : Nat := 127

/-- Decodes a value nested at most so many containers deep. -/
def Decoder (α : Type) : Type := Nat → Json → Option α

namespace Decoder

variable {α : Type}

def text : Decoder String
  | _, .string value => some value
  | _, _ => none

def truth : Decoder Bool
  | _, .bool value => some value
  | _, _ => none

def naturalBelow (limit : Nat) : Decoder Nat
  | _, .natural value => if value < limit then some value else none
  | _, _ => none

def count : Decoder Nat := naturalBelow 0x10000000000000000

def code : Decoder UInt32 := fun room json =>
  (naturalBelow 0x100000000 room json).map UInt32.ofNat

def orNull (decode : Decoder α) : Decoder (Option α) := fun room json =>
  match json with
  | .null => some none
  | json => (decode room json).map some

def list (decode : Decoder α) : Decoder (List α)
  | room + 1, .array items => items.mapM (decode room)
  | _, _ => none

def entries (decode : Decoder α) : Decoder (List (String × α))
  | room + 1, .object fields =>
      fields.mapM fun field => (decode room field.2).map fun value => (field.1, value)
  | _, _ => none

/-- A word with a meaning.  As the name of an only field it is followed by
`null`; where `emptyToo` holds an empty object may stand there as well. -/
def word (emptyToo : Bool) (meaning? : String → Option α) : Decoder α
  | _, .string value => meaning? value
  | _ + 1, .object [(value, .null)] => meaning? value
  | _ + 1, .object [(value, .object [])] => if emptyToo then meaning? value else none
  | _, _ => none

end Decoder

structure JsonRecord where
  fields : List (String × Json)
  /-- Whether the fields were given in order and not by name. -/
  inOrder : Bool
  /-- How deep the fields may be nested. -/
  room : Nat

namespace JsonRecord

variable {α : Type}

def ofJson? (names : List String) : Decoder JsonRecord
  | room + 1, .object fields =>
      let own := fields.filter fun field => names.contains field.1
      if (own.map Prod.fst).Nodup then some { fields := own, inOrder := false, room } else none
  | room + 1, .array items =>
      if items.length ≤ names.length then
        some { fields := names.zip items, inOrder := true, room }
      else none
  | _, _ => none

def find? (record : JsonRecord) (name : String) : Option Json :=
  (record.fields.find? fun field => field.1 == name).map Prod.snd

def required (record : JsonRecord) (name : String) (decode : Decoder α) : Option α :=
  (record.find? name).bind (decode record.room)

def withDefault (record : JsonRecord) (name : String) (decode : Decoder α) (default : α) :
    Option α :=
  match record.find? name with
  | some json => decode record.room json
  | none => some default

/-- A field whose value may be absent: it may be `null`, or left out of an object. -/
def optional (record : JsonRecord) (name : String) (decode : Decoder α) : Option (Option α) :=
  match record.find? name with
  | some json => decode.orNull record.room json
  | none => if record.inOrder then none else some none

end JsonRecord

namespace Json

mutual

/-- Whether a value can be held whole before it is decoded: it is not nested too deep, all its
texts stand for something, and no number is too large for a double. -/
def isStorable : Nat → Json → Bool
  | _, .null => true
  | _, .bool _ => true
  | _, .natural value => !(Decimal.mk value 0).exceedsDouble
  | _, .numeral text => !(Decimal.ofNumeral text.toList).exceedsDouble
  | _, .string _ => true
  | room, .array items => room != 0 && areStorable (room - 1) items
  | room, .object fields => room != 0 && areFieldsStorable (room - 1) fields
  | _, .broken => false
termination_by structural _ json => json

def areStorable : Nat → List Json → Bool
  | _, [] => true
  | room, item :: rest => isStorable room item && areStorable room rest
termination_by structural _ items => items

def areFieldsStorable : Nat → List (String × Json) → Bool
  | _, [] => true
  | room, field :: rest => isFieldStorable room field && areFieldsStorable room rest
termination_by structural _ fields => fields

def isFieldStorable : Nat → String × Json → Bool
  | room, (_, value) => isStorable room value
termination_by structural _ field => field

end

/-- Takes the text tag of an object or array off: the tag, and the value without it. -/
def untag? (name : String) : Json → Option (String × Json)
  | .object fields =>
      match fields.filter fun field => field.1 == name with
      | [(_, .string tag)] => some (tag, .object (fields.filter fun field => field.1 != name))
      | _ => none
  | .array (.string tag :: items) => some (tag, .array items)
  | _ => none

end Json

end ApiCompat
