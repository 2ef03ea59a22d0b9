/-!
# Lexemes of a signature file

A lexeme is a piece of text with its kind and its place.  Keywords are
identifiers; readers of declarations know them by their text.  The blanks and
comments between two lexemes are kept as the gap of the second one, so that a
run of lexemes still tells how it was written (`sourceText`).
-/

set_option autoImplicit false

namespace ApiCompat

inductive TokenKind where
  | identifier
  | number
  | stringLiteral
  | charLiteral
  | leftBrace
  | rightBrace
  | leftParen
  | rightParen
  | less
  | greater
  | leftBracket
  | rightBracket
  | comma
  | semicolon
  | ellipsis
  | dot
  | question
  | bang
  | atSign
  | equals
  | ampersand
  /-- Operators, which stand only in constant values and annotation arguments. -/
  | operator
deriving DecidableEq

def TokenKind.describe : TokenKind → String
  | identifier => "identifier"
  | number => "number"
  | stringLiteral => "string literal"
  | charLiteral => "character literal"
  | leftBrace => "'\x7b'"
  | rightBrace => "'\x7d'"
  | leftParen => "'('"
  | rightParen => "')'"
  | less => "'<'"
  | greater => "'>'"
  | leftBracket => "'['"
  | rightBracket => "']'"
  | comma => "','"
  | semicolon => "';'"
  | ellipsis => "'...'"
  | dot => "'.'"
  | question => "'?'"
  | bang => "'!'"
  | atSign => "'@'"
  | equals => "'='"
  | ampersand => "'&'"
  | operator => "operator"

structure Lexeme where
  kind : TokenKind
  text : String
  /-- The blanks and comments between the lexeme before and this one. -/
  gap : String
  /-- The number of bytes before the lexeme. -/
  start : Nat
  line : Nat
deriving DecidableEq

namespace Lexeme

def stop (lexeme : Lexeme) : Nat := lexeme.start + lexeme.text.utf8ByteSize

def isWord (lexeme : Lexeme) (word : String) : Bool :=
  lexeme.kind == .identifier && lexeme.text == word

/-- The source text from the start of the first lexeme to the end of the last one. -/
def sourceText : List Lexeme → String
  | [] => ""
  | first :: rest => rest.foldl (fun sofar next => sofar ++ next.gap ++ next.text) first.text

end Lexeme

end ApiCompat
