/-!
# Decimal numerals and the range of doubles

A numeral stands for digits times a power of ten.  It is too large for a
double when rounding to the nearest double would give infinity, which begins
half a unit above the greatest finite double.
-/

set_option autoImplicit false

namespace ApiCompat

/-- A numeral without its sign: `digits` times ten to the power `exponent`. -/
structure Decimal where
  digits : Nat
  exponent : Int

namespace Decimal

/-- The number that a run of decimal digits stands for; other characters are skipped. -/
def natOfDigits (digits : List Char) : Nat :=
  (digits.filter Char.isDigit).foldl (fun sofar c => sofar * 10 + (c.toNat - '0'.toNat)) 0

def intOfDigits : List Char → Int
  | '-' :: digits => -(natOfDigits digits : Int)
  | digits => natOfDigits digits

def ofNumeral (text : List Char) : Decimal :=
  let isMark := fun c : Char => c == 'e' || c == 'E'
  let mantissa := text.takeWhile fun c => !isMark c
  let exponent := (text.dropWhile fun c => !isMark c).drop 1
  let fraction := ((mantissa.dropWhile (· != '.')).filter Char.isDigit).length
  { digits := natOfDigits mantissa, exponent := intOfDigits exponent - fraction }

/-- The least number that does not round to a finite double. -/
def doubleLimit : Nat := Nat.pow 2 1024 - Nat.pow 2 970

def exceedsDouble (decimal : Decimal) : Bool :=
  if decimal.digits = 0 then false
  else
    let places : Int := (Nat.toDigits 10 decimal.digits).length + decimal.exponent
    if places > 309 then true
    else if places < 309 then false
    else if decimal.exponent ≥ 0 then
      decide (doubleLimit ≤ decimal.digits * Nat.pow 10 decimal.exponent.toNat)
    else decide (doubleLimit * Nat.pow 10 (-decimal.exponent).toNat ≤ decimal.digits)

end Decimal

end ApiCompat
