/-!
# Styled text

Text for a terminal may be marked with escape sequences: a start sequence with
the codes of its style, and an end sequence that resets them.
-/

set_option autoImplicit false

namespace ApiCompat

inductive Style where
  | bold
  | dimmed
  | redBold
  | yellowBold
  | greenBold
  | yellow
  | cyan
deriving DecidableEq

def Style.codes : Style → String
  | bold => "1"
  | dimmed => "2"
  | redBold => "1;31"
  | yellowBold => "1;33"
  | greenBold => "1;32"
  | yellow => "33"
  | cyan => "36"

/-- A text in which the style openings again after every reset inside it. -/
def resume (opening : List Char) : List Char → List Char
  | '\x1b' :: '[' :: '0' :: 'm' :: rest => '\x1b' :: '[' :: '0' :: 'm' :: (opening ++ resume opening rest)
  | c :: rest => c :: resume opening rest
  | [] => []

def paint (colors : Bool) (style : Style) (text : String) : String :=
  if colors then
    let opening := "\x1b[" ++ style.codes ++ "m"
    opening ++ String.ofList (resume opening.toList text.toList) ++ "\x1b[0m"
  else text

end ApiCompat
