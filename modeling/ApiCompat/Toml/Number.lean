import ApiCompat.Decimal.Range
import ApiCompat.Toml.Basic

/-!
# Numbers and dates of TOML

A number or date is a run of letters, digits and the signs that occur in them;
what it is, is decided on the whole run.  A date may be followed by one blank
and a time.
-/

set_option autoImplicit false

namespace ApiCompat.Toml

def isNumberChar (c : Char) : Bool :=
  c.isAlphanum || c == '+' || c == '-' || c == '_' || c == '.' || c == ':'

/-! ## Integers -/

/-- The digits of a run in which underscores may stand between digits; none if there are no
digits or an underscore stands elsewhere. -/
def ungroup? (isDigit : Char → Bool) (afterDigit : Bool) : List Char → Option (List Char)
  | [] => if afterDigit then some [] else none
  | c :: rest =>
      if isDigit c then (ungroup? isDigit true rest).map (c :: ·)
      else if c = '_' ∧ afterDigit then ungroup? isDigit false rest
      else none

def digitValue (c : Char) : Nat :=
  if c.isDigit then c.toNat - '0'.toNat
  else if 'a' ≤ c ∧ c ≤ 'f' then c.toNat - 'a'.toNat + 10
  else c.toNat - 'A'.toNat + 10

def isDigitOf (base : Nat) (c : Char) : Bool :=
  (c.isDigit || ('a' ≤ c && c ≤ 'f') || ('A' ≤ c && c ≤ 'F')) && digitValue c < base

def numberOf (base : Nat) (digits : List Char) : Nat :=
  digits.foldl (fun sofar digit => sofar * base + digitValue digit) 0

def splitSign : List Char → Bool × List Char
  | '-' :: rest => (true, rest)
  | '+' :: rest => (false, rest)
  | text => (false, text)

def decimalDigits? (text : List Char) : Option (List Char) :=
  if text.head? = some '0' ∧ text.length ≠ 1 then none else ungroup? Char.isDigit false text

def unboundedInteger? (text : List Char) : Option Int :=
  let based := fun (base : Nat) (digits : List Char) =>
    (ungroup? (isDigitOf base) false digits).map fun digits => (numberOf base digits : Int)
  match text with
  | '0' :: 'x' :: digits => based 16 digits
  | '0' :: 'o' :: digits => based 8 digits
  | '0' :: 'b' :: digits => based 2 digits
  | text =>
      let (negative, unsigned) := splitSign text
      (decimalDigits? unsigned).map fun digits =>
        if negative then -(numberOf 10 digits : Int) else numberOf 10 digits

/-- An integer; it has to fit into 64 bits with a sign. -/
def integer? (text : List Char) : Option Int :=
  match unboundedInteger? text with
  | some value => if -0x8000000000000000 ≤ value ∧ value < 0x8000000000000000 then some value else none
  | none => none

/-! ## Numbers with a fraction or exponent -/

def isExponent : List Char → Bool
  | c :: rest =>
      (c == 'e' || c == 'E') && (ungroup? Char.isDigit false (splitSign rest).2).isSome
  | [] => false

def isFraction : List Char → Bool
  | '.' :: rest =>
      let isMark := fun c : Char => c == 'e' || c == 'E'
      let exponent := rest.dropWhile fun c => !isMark c
      (ungroup? Char.isDigit false (rest.takeWhile fun c => !isMark c)).isSome &&
        (exponent.isEmpty || isExponent exponent)
  | _ => false

/-- Whether a run is a number with a fraction or exponent, or infinite or no number.  A positive
number must not be too large for a double. -/
def isFloat (text : List Char) : Bool :=
  let (negative, unsigned) := splitSign text
  let isHead := fun c : Char => c != '.' && c != 'e' && c != 'E'
  let more := unsigned.dropWhile isHead
  unsigned == ['i', 'n', 'f'] || unsigned == ['n', 'a', 'n'] ||
    ((decimalDigits? (unsigned.takeWhile isHead)).isSome &&
      (isExponent more || isFraction more) &&
      (negative || !(Decimal.ofNumeral unsigned).exceedsDouble))

/-! ## Dates and times -/

def splitDigits? (places : Nat) (text : List Char) : Option (Nat × List Char) :=
  let digits := text.take places
  if digits.length = places ∧ digits.all Char.isDigit then
    some (numberOf 10 digits, text.drop places)
  else none

def splitChar? (expected : Char) : List Char → Option (List Char)
  | c :: rest => if c = expected then some rest else none
  | [] => none

def daysOfMonth (year month : Nat) : Nat :=
  if month = 2 then
    if year % 4 = 0 ∧ (year % 100 ≠ 0 ∨ year % 400 = 0) then 29 else 28
  else if month = 4 ∨ month = 6 ∨ month = 9 ∨ month = 11 then 30
  else 31

def splitDate? (text : List Char) : Option (List Char) := do
  let (year, rest) ← splitDigits? 4 text
  let (month, rest) ← splitDigits? 2 (← splitChar? '-' rest)
  let (day, rest) ← splitDigits? 2 (← splitChar? '-' rest)
  if 1 ≤ month ∧ month ≤ 12 ∧ 1 ≤ day ∧ day ≤ daysOfMonth year month then some rest else none

def splitTime? (text : List Char) : Option (List Char) := do
  let (hour, rest) ← splitDigits? 2 text
  let (minute, rest) ← splitDigits? 2 (← splitChar? ':' rest)
  let (second, rest) ← splitDigits? 2 (← splitChar? ':' rest)
  if hour ≤ 23 ∧ minute ≤ 59 ∧ second ≤ 60 then
    match rest with
    | '.' :: fraction =>
        if (fraction.takeWhile Char.isDigit).isEmpty then none
        else some (fraction.dropWhile Char.isDigit)
    | rest => some rest
  else none

def isOffset : List Char → Bool
  | [] => true
  | ['Z'] => true
  | ['z'] => true
  | sign :: rest =>
      (sign == '+' || sign == '-') &&
        (match splitDigits? 2 rest with
          | some (hour, ':' :: rest) =>
              match splitDigits? 2 rest with
              | some (minute, []) => hour ≤ 23 && minute ≤ 59
              | _ => false
          | _ => false)

def isOffsetTime (text : List Char) : Bool := (splitTime? text).any isOffset

def isDateTime (text : List Char) : Bool :=
  match splitDate? text with
  | some [] => true
  | some (mark :: time) => (mark == 'T' || mark == 't') && isOffsetTime time
  | none => splitTime? text == some []

/-! ## Reading -/

def ofRun? (run : List Char) : Option Toml :=
  match integer? run with
  | some value => some (.integer value)
  | none =>
      if isFloat run then some (.float (String.ofList run))
      else if isDateTime run then some (.datetime (String.ofList run))
      else none

def readNumber? (text : List Char) : Option (Toml × List Char) :=
  let run := text.takeWhile isNumberChar
  let after := text.dropWhile isNumberChar
  let single := (ofRun? run).map fun value => (value, after)
  match after with
  | ' ' :: rest =>
      if splitDate? run == some [] ∧ rest.head?.any Char.isDigit then
        let time := rest.takeWhile isNumberChar
        if isOffsetTime time then
          some (.datetime (String.ofList (run ++ ' ' :: time)), rest.dropWhile isNumberChar)
        else none
      else single
  | _ => single

end ApiCompat.Toml
