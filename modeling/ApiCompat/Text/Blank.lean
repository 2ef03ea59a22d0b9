/-!
# Blank characters

The characters with the Unicode property `White_Space`, and trimming by them.
-/

set_option autoImplicit false

namespace ApiCompat

/-- The inclusive ranges of code points with the property `White_Space`. -/
def blankRanges : List (Nat × Nat) :=
  [(0x09, 0x0D), (0x20, 0x20), (0x85, 0x85), (0xA0, 0xA0), (0x1680, 0x1680),
    (0x2000, 0x200A), (0x2028, 0x2029), (0x202F, 0x202F), (0x205F, 0x205F), (0x3000, 0x3000)]

def isBlank (c : Char) : Bool :=
  blankRanges.any fun range => range.1 ≤ c.toNat && c.toNat ≤ range.2

def trimFront (text : List Char) : List Char := text.dropWhile isBlank

def trimBack : List Char → List Char
  | [] => []
  | c :: rest =>
      match trimBack rest with
      | [] => if isBlank c then [] else [c]
      | kept => c :: kept

def trim (text : List Char) : List Char := trimBack (trimFront text)

end ApiCompat
