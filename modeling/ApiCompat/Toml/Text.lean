/-!
# Blanks, comments, strings and keys of TOML

Each reader takes what it reads from the front of a text and leaves the rest,
or fails.  Lines end with a line feed, before which a carriage return may
stand; other control characters but tabs are nowhere allowed.
-/

set_option autoImplicit false

namespace ApiCompat.Toml

/-! ## Blanks and comments -/

def isSpace (c : Char) : Bool := c == ' ' || c == '\t'

/-- The characters that may stand in comments and strings: no control characters but tabs. -/
def isPrintable (c : Char) : Bool := c == '\t' || (0x20 ≤ c.toNat && c.toNat != 0x7F)

def skipSpace (text : List Char) : List Char := text.dropWhile isSpace

def lineBreak? : List Char → Option (List Char)
  | '\n' :: rest => some rest
  | '\r' :: '\n' :: rest => some rest
  | _ => none

/-- Takes the rest of a line that holds nothing but blanks and a comment. -/
def endOfLine? (text : List Char) : Option (List Char) :=
  let text := skipSpace text
  let text := if text.head? = some '#' then text.dropWhile isPrintable else text
  if text.isEmpty then some [] else lineBreak? text

/-- The text after all leading blanks, comments and line breaks; `inComment` says whether it
begins inside a comment. -/
def skipLayout (inComment : Bool) : List Char → List Char
  | [] => []
  | '\r' :: '\n' :: rest => skipLayout false rest
  | c :: rest =>
      if c = '\n' then skipLayout false rest
      else if inComment then
        if isPrintable c then skipLayout true rest else c :: rest
      else if isSpace c then skipLayout false rest
      else if c = '#' then skipLayout true rest
      else c :: rest

/-! ## Strings -/

def hexValue? (c : Char) : Option Nat :=
  if c.isDigit then some (c.toNat - '0'.toNat)
  else if 'a' ≤ c ∧ c ≤ 'f' then some (c.toNat - 'a'.toNat + 10)
  else if 'A' ≤ c ∧ c ≤ 'F' then some (c.toNat - 'A'.toNat + 10)
  else none

def hexNumber? (digits : List Char) : Option Nat :=
  digits.foldlM (fun sofar digit => (hexValue? digit).map fun value => sofar * 16 + value) 0

def scalar? (digits : List Char) : Option Char := do
  let code ← hexNumber? digits
  if code < 0xD800 ∨ (0xDFFF < code ∧ code < 0x110000) then some (Char.ofNat code) else none

def unescape? : Char → Option Char
  | 'b' => some '\x08'
  | 't' => some '\t'
  | 'n' => some '\n'
  | 'f' => some '\x0c'
  | 'r' => some '\r'
  | '"' => some '"'
  | '\\' => some '\\'
  | _ => none

def escape? : List Char → Option (Char × List Char)
  | 'u' :: rest =>
      if 4 ≤ rest.length then (scalar? (rest.take 4)).map fun c => (c, rest.drop 4) else none
  | 'U' :: rest =>
      if 8 ≤ rest.length then (scalar? (rest.take 8)).map fun c => (c, rest.drop 8) else none
  | letter :: rest => (unescape? letter).map fun c => (c, rest)
  | [] => none

def basicRest : Nat → List Char → Option (List Char × List Char)
  | 0, _ => none
  | _, [] => none
  | steps + 1, c :: rest =>
      if c = '"' then some ([], rest)
      else if c = '\\' then do
        let (escaped, rest) ← escape? rest
        let (later, after) ← basicRest steps rest
        return (escaped :: later, after)
      else if isPrintable c then do
        let (later, after) ← basicRest steps rest
        return (c :: later, after)
      else none

def literalRest : List Char → Option (List Char × List Char)
  | [] => none
  | c :: rest =>
      if c = '\'' then some ([], rest)
      else if isPrintable c then (literalRest rest).map fun cut => (c :: cut.1, cut.2)
      else none

/-- The end of a string in three quotes each, if the text begins with it.  One or two more
quotes directly before the end belong to the string. -/
def closeLong? (quote : Char) (text : List Char) : Option (List Char × List Char) :=
  let run := text.takeWhile (· == quote)
  if run.length < 3 then none
  else if run.length = 3 then some ([], text.drop 3)
  else if run.length = 4 then some ([quote], text.drop 4)
  else some ([quote, quote], text.drop 5)

def skipBreaks : List Char → List Char
  | [] => []
  | '\r' :: '\n' :: rest => skipBreaks rest
  | c :: rest => if isSpace c ∨ c = '\n' then skipBreaks rest else c :: rest

/-- Takes a break of a line that a backslash joins to the next text: blanks, a line break, and
all blanks and line breaks after it. -/
def joinedLine? (text : List Char) : Option (List Char) :=
  (lineBreak? (skipSpace text)).map skipBreaks

/-- The rest of a string in three double quotes each, in at most `steps` steps. -/
def longBasicRest : Nat → List Char → Option (List Char × List Char)
  | 0, _ => none
  | steps + 1, text =>
      match closeLong? '"' text with
      | some found => some found
      | none =>
          match text with
          | [] => none
          | '\\' :: rest =>
              match joinedLine? rest with
              | some rest => longBasicRest steps rest
              | none => do
                  let (escaped, rest) ← escape? rest
                  let (later, after) ← longBasicRest steps rest
                  return (escaped :: later, after)
          | c :: rest =>
              match lineBreak? (c :: rest) with
              | some rest => (longBasicRest steps rest).map fun cut => ('\n' :: cut.1, cut.2)
              | none =>
                  if isPrintable c then
                    (longBasicRest steps rest).map fun cut => (c :: cut.1, cut.2)
                  else none

def longLiteralRest : Nat → List Char → Option (List Char × List Char)
  | 0, _ => none
  | steps + 1, text =>
      match closeLong? '\'' text with
      | some found => some found
      | none =>
          match lineBreak? text with
          | some rest => (longLiteralRest steps rest).map fun cut => ('\n' :: cut.1, cut.2)
          | none =>
              match text with
              | [] => none
              | c :: rest =>
                  if isPrintable c then
                    (longLiteralRest steps rest).map fun cut => (c :: cut.1, cut.2)
                  else none

def afterFirstBreak (text : List Char) : List Char := (lineBreak? text).getD text

def readShortString? : List Char → Option (String × List Char)
  | '"' :: rest =>
      (basicRest (rest.length + 1) rest).map fun cut => (String.ofList cut.1, cut.2)
  | '\'' :: rest => (literalRest rest).map fun cut => (String.ofList cut.1, cut.2)
  | _ => none

def readString? : List Char → Option (String × List Char)
  | '"' :: '"' :: '"' :: rest =>
      (longBasicRest (rest.length + 1) (afterFirstBreak rest)).map fun cut =>
        (String.ofList cut.1, cut.2)
  | '\'' :: '\'' :: '\'' :: rest =>
      (longLiteralRest (rest.length + 1) (afterFirstBreak rest)).map fun cut =>
        (String.ofList cut.1, cut.2)
  | text => readShortString? text

/-! ## Keys -/

def isBareKeyChar (c : Char) : Bool := c.isAlphanum || c == '_' || c == '-'

def readKeyPart? (text : List Char) : Option (String × List Char) :=
  let bare := text.takeWhile isBareKeyChar
  if bare.isEmpty then readShortString? text
  else some (String.ofList bare, text.dropWhile isBareKeyChar)

/-- The parts of a key, joined by dots, with blanks around them, in at most `steps` steps. -/
def readKeyParts? : Nat → List Char → Option (List String × List Char)
  | 0, _ => none
  | steps + 1, text => do
      let (first, rest) ← readKeyPart? (skipSpace text)
      match skipSpace rest with
      | '.' :: rest =>
          let (later, after) ← readKeyParts? steps rest
          return (first :: later, after)
      | after => return ([first], after)

def keyLimit : Nat := 79

def readKey? (text : List Char) : Option (List String × List Char) := do
  let (parts, after) ← readKeyParts? (text.length + 1) text
  if parts.length ≤ keyLimit then some (parts, after) else none

end ApiCompat.Toml
