import ApiCompat.Json.Basic

/-!
# Reading JSON

A text is read when it is one value with nothing but blanks around it.
Nesting may be as deep as the text is long; how deep a value may be nested is
for those who use it to decide.
-/

set_option autoImplicit false

namespace ApiCompat.Json

def isSpace (c : Char) : Bool := c == ' ' || c == '\t' || c == '\n' || c == '\r'

def skipSpace (text : List Char) : List Char := text.dropWhile isSpace

/-! ## Strings -/

def hexValue? (c : Char) : Option Nat :=
  if c.isDigit then some (c.toNat - '0'.toNat)
  else if 'a' ≤ c ∧ c ≤ 'f' then some (c.toNat - 'a'.toNat + 10)
  else if 'A' ≤ c ∧ c ≤ 'F' then some (c.toNat - 'A'.toNat + 10)
  else none

def hexUnit? (a b c d : Char) : Option Nat := do
  return (((← hexValue? a) * 16 + (← hexValue? b)) * 16 + (← hexValue? c)) * 16 + (← hexValue? d)

def unescape? : Char → Option Char
  | '"' => some '"'
  | '\\' => some '\\'
  | '/' => some '/'
  | 'b' => some '\x08'
  | 'f' => some '\x0c'
  | 'n' => some '\n'
  | 'r' => some '\r'
  | 't' => some '\t'
  | _ => none

/-- The code units of a string after its opening quote, and what follows the
closing one.  Escapes by number may give halves of surrogate pairs. -/
def readUnits : List Char → Option (List Nat × List Char)
  | [] => none
  | '"' :: rest => some ([], rest)
  | '\\' :: 'u' :: a :: b :: c :: d :: rest => do
      let unit ← hexUnit? a b c d
      let (units, after) ← readUnits rest
      return (unit :: units, after)
  | '\\' :: letter :: rest => do
      let c ← unescape? letter
      let (units, after) ← readUnits rest
      return (c.toNat :: units, after)
  | c :: rest => do
      if c.toNat < 0x20 ∨ c = '\\' then none
      else
        let (units, after) ← readUnits rest
        return (c.toNat :: units, after)

/-- Whether a unit is the first half of a surrogate pair. -/
def isHighHalf (unit : Nat) : Bool := 0xD800 ≤ unit && unit ≤ 0xDBFF

def isLowHalf (unit : Nat) : Bool := 0xDC00 ≤ unit && unit ≤ 0xDFFF

/-- The characters of code units, if no half of a pair stands alone. -/
def joinHalves : List Nat → Option (List Char)
  | [] => some []
  | unit :: rest =>
      if isHighHalf unit then
        match rest with
        | low :: rest =>
            if isLowHalf low then
              (joinHalves rest).map fun later =>
                Char.ofNat (0x10000 + (unit - 0xD800) * 0x400 + (low - 0xDC00)) :: later
            else none
        | [] => none
      else if isLowHalf unit then none
      else (joinHalves rest).map fun later => Char.ofNat unit :: later

/-- A string after its opening quote; `none` inside if it stands for no text. -/
def readString (text : List Char) : Option (Option String × List Char) := do
  let (units, after) ← readUnits text
  return ((joinHalves units).map String.ofList, after)

/-! ## Numbers -/

def readDigits (text : List Char) : Option (List Char × List Char) :=
  let digits := text.takeWhile Char.isDigit
  if digits.isEmpty then none else some (digits, text.dropWhile Char.isDigit)

def readFraction : List Char → Option (List Char × List Char)
  | '.' :: rest => (readDigits rest).map fun cut => ('.' :: cut.1, cut.2)
  | text => some ([], text)

def readExponent : List Char → Option (List Char × List Char)
  | [] => some ([], [])
  | c :: rest =>
      if c = 'e' ∨ c = 'E' then
        match rest with
        | '+' :: digits => (readDigits digits).map fun cut => (c :: '+' :: cut.1, cut.2)
        | '-' :: digits => (readDigits digits).map fun cut => (c :: '-' :: cut.1, cut.2)
        | digits => (readDigits digits).map fun cut => (c :: cut.1, cut.2)
      else some ([], c :: rest)

def decimalValue (digits : List Char) : Nat :=
  digits.foldl (fun sofar c => sofar * 10 + (c.toNat - '0'.toNat)) 0

def readUnsigned (text : List Char) : Option (List Char × List Char × List Char) := do
  let (digits, afterDigits) ← readDigits text
  if digits.length ≠ 1 ∧ digits.head? = some '0' then none
  else
    let (fraction, afterFraction) ← readFraction afterDigits
    let (exponent, after) ← readExponent afterFraction
    return (digits, fraction ++ exponent, after)

def readNumber : List Char → Option (Json × List Char)
  | '-' :: rest => do
      let (digits, more, after) ← readUnsigned rest
      return (numeral (String.ofList ('-' :: (digits ++ more))), after)
  | text => do
      let (digits, more, after) ← readUnsigned text
      if more.isEmpty then return (natural (decimalValue digits), after)
      else return (numeral (String.ofList (digits ++ more)), after)

/-! ## Values -/

/-- The object of the given fields; none if one of the names stands for no text. -/
def objectOf (fields : List (Option String × Json)) : Json :=
  match fields.mapM fun field => field.1.map fun name => (name, field.2) with
  | some fields => object fields
  | none => broken

mutual

def readValue : Nat → List Char → Option (Json × List Char)
  | 0, _ => none
  | steps + 1, text =>
      match text with
      | 'n' :: 'u' :: 'l' :: 'l' :: rest => some (null, rest)
      | 't' :: 'r' :: 'u' :: 'e' :: rest => some (bool true, rest)
      | 'f' :: 'a' :: 'l' :: 's' :: 'e' :: rest => some (bool false, rest)
      | '"' :: rest => do
          let (content, after) ← readString rest
          return ((content.map string).getD broken, after)
      | '[' :: rest =>
          match skipSpace rest with
          | ']' :: after => some (array [], after)
          | inside => do
              let (items, after) ← readItems steps inside
              return (array items, after)
      | '\x7b' :: rest =>
          match skipSpace rest with
          | '\x7d' :: after => some (object [], after)
          | inside => do
              let (fields, after) ← readFields steps inside
              return (objectOf fields, after)
      | text => readNumber text

def readItems : Nat → List Char → Option (List Json × List Char)
  | 0, _ => none
  | steps + 1, text => do
      let (first, rest) ← readValue steps text
      match skipSpace rest with
      | ',' :: rest =>
          let (later, after) ← readItems steps (skipSpace rest)
          return (first :: later, after)
      | ']' :: after => return ([first], after)
      | _ => none

def readFields : Nat → List Char → Option (List (Option String × Json) × List Char)
  | 0, _ => none
  | steps + 1, text =>
      match text with
      | '"' :: rest => do
          let (name, rest) ← readString rest
          match skipSpace rest with
          | ':' :: rest =>
              let (value, rest) ← readValue steps (skipSpace rest)
              match skipSpace rest with
              | ',' :: rest =>
                  let (later, after) ← readFields steps (skipSpace rest)
                  return ((name, value) :: later, after)
              | '\x7d' :: after => return ([(name, value)], after)
              | _ => none
          | _ => none
      | _ => none

end

/-- The value that a text stands for.  Every two steps take a character, so
twice the length of the text is enough. -/
def read (text : String) : Option Json :=
  let chars := text.toList
  match readValue (2 * chars.length + 1) (skipSpace chars) with
  | some (value, rest) => if (skipSpace rest).isEmpty then some value else none
  | none => none

end ApiCompat.Json
