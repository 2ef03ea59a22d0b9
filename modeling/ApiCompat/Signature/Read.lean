import ApiCompat.Signature.Classes
import ApiCompat.Signature.Header
import ApiCompat.Token.Lexer

/-!
# Reading a signature text

The header settles the null mode, the text is split into lexemes, and the
lexemes are read as package blocks.
-/

set_option autoImplicit false

namespace ApiCompat.Signature

/-- The line of the last lexeme, or of an empty text. -/
def lastLine (lexemes : List Lexeme) : Nat :=
  (lexemes.getLast?.map Lexeme.line).getD 1

def readPackages (mode : NullMode) (lexemes : List Lexeme) :
    Except Fault (OrderedMap String (Located Package)) :=
  let context : Context := { nullMode := mode, endLine := lastLine lexemes }
  match packageBlocks lexemes.length .empty context lexemes with
  | .ok (packages, _) => .ok packages
  | .error fault => .error fault

/-- The API that a signature text declares.  `source` is the name of its file;
`requested` is the null mode asked for, if any. -/
def read (source text : String) (requested : Option NullMode) : Except Fault Api :=
  match resolveMode text.toList requested with
  | .error fault => .error fault
  | .ok mode =>
      match tokenize text with
      | .error place => .error { line := place.line, reason := .unreadable place.text }
      | .ok lexemes =>
          match readPackages mode lexemes with
          | .error fault => .error fault
          | .ok packages => .ok { source, nullMode := mode, packages }

end ApiCompat.Signature
