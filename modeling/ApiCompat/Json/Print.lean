import ApiCompat.Json.Basic

/-!
# Writing JSON

Two layouts: without any blanks, and with one item a line, indented by two
spaces a level.  Quotes, backslashes and control characters are escaped; all
other characters stand for themselves.
-/

set_option autoImplicit false

namespace ApiCompat.Json

def hexDigit (n : Nat) : Char :=
  if n < 10 then Char.ofNat ('0'.toNat + n) else Char.ofNat ('a'.toNat + (n - 10))

def escapeChar (c : Char) : List Char :=
  match c with
  | '"' => ['\\', '"']
  | '\\' => ['\\', '\\']
  | '\x08' => ['\\', 'b']
  | '\x0c' => ['\\', 'f']
  | '\n' => ['\\', 'n']
  | '\r' => ['\\', 'r']
  | '\t' => ['\\', 't']
  | c =>
      if c.toNat < 0x20 then
        ['\\', 'u', '0', '0', hexDigit (c.toNat / 16), hexDigit (c.toNat % 16)]
      else [c]

def quote (text : String) : String :=
  String.ofList ('"' :: (text.toList.flatMap escapeChar ++ ['"']))

def scalar : Json → String
  | null => "null"
  | bool true => "true"
  | bool false => "false"
  | natural value => toString value
  | numeral text => text
  | string text => quote text
  | _ => "\"\\ud800\""

mutual

def compact : Json → String
  | array items => "[" ++ compactItems items ++ "]"
  | object fields => "\x7b" ++ compactFields fields ++ "\x7d"
  | value => scalar value
termination_by structural value => value

def compactItems : List Json → String
  | [] => ""
  | [item] => compact item
  | item :: rest => compact item ++ "," ++ compactItems rest
termination_by structural items => items

def compactFields : List (String × Json) → String
  | [] => ""
  | [field] => compactField field
  | field :: rest => compactField field ++ "," ++ compactFields rest
termination_by structural fields => fields

def compactField : String × Json → String
  | (name, value) => quote name ++ ":" ++ compact value
termination_by structural field => field

end

def newLine (level : Nat) : String := "\n" ++ String.ofList (List.replicate (2 * level) ' ')

mutual

/-- The value with one item a line; its first line stands at the given level. -/
def indented (level : Nat) : Json → String
  | array [] => "[]"
  | array (item :: rest) =>
      "[" ++ newLine (level + 1) ++ indented (level + 1) item ++ indentedItems (level + 1) rest ++
        newLine level ++ "]"
  | object [] => "\x7b\x7d"
  | object (field :: rest) =>
      "\x7b" ++ newLine (level + 1) ++ indentedField (level + 1) field ++
        indentedFields (level + 1) rest ++ newLine level ++ "\x7d"
  | value => scalar value
termination_by structural value => value

def indentedItems (level : Nat) : List Json → String
  | [] => ""
  | item :: rest => "," ++ newLine level ++ indented level item ++ indentedItems level rest
termination_by structural items => items

def indentedFields (level : Nat) : List (String × Json) → String
  | [] => ""
  | field :: rest => "," ++ newLine level ++ indentedField level field ++ indentedFields level rest
termination_by structural fields => fields

def indentedField (level : Nat) : String × Json → String
  | (name, value) => quote name ++ ": " ++ indented level value
termination_by structural field => field

end

def pretty (value : Json) : String := indented 0 value

end ApiCompat.Json
