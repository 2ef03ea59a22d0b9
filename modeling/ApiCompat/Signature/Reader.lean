import ApiCompat.Signature.Fault

/-!
# Readers of lexemes

A `Reader` takes what it needs from the front of a list of lexemes, or says
why it cannot.  At the end of the text a fault is placed on the line of the
last lexeme, which is part of the context.  Loops that take at least one
lexeme a round are bounded by the number of lexemes that remain.
-/

set_option autoImplicit false

namespace ApiCompat.Signature

structure Context where
  nullMode : NullMode
  /-- The line of the last lexeme of the text. -/
  endLine : Nat

/-- Reads a value from the front of the lexemes and leaves the rest. -/
def Reader (α : Type) : Type :=
  Context → List Lexeme → Except Fault (α × List Lexeme)

namespace Reader

variable {α β : Type}

def result (value : α) : Reader α := fun _ lexemes => .ok (value, lexemes)

def andThen (reader : Reader α) (next : α → Reader β) : Reader β := fun context lexemes =>
  match reader context lexemes with
  | .ok (value, rest) => next value context rest
  | .error fault => .error fault

instance : Monad Reader where
  pure := result
  bind := andThen

def context : Reader Context := fun context lexemes => .ok (context, lexemes)

def remaining : Reader (List Lexeme) := fun _ lexemes => .ok (lexemes, lexemes)

def continueWith (lexemes : List Lexeme) : Reader Unit := fun _ _ => .ok ((), lexemes)

def failAt (line : Nat) (reason : Reason) : Reader α := fun _ _ => .error { line, reason }

/-- The line of the next lexeme, or of the last one at the end. -/
def currentLine : Reader Nat := fun context lexemes =>
  match lexemes with
  | [] => .ok (context.endLine, lexemes)
  | next :: _ => .ok (next.line, lexemes)

def unexpected (expected : Expected) : Reader α := fun context lexemes =>
  match lexemes with
  | [] => .error { line := context.endLine, reason := .unexpected expected none }
  | next :: _ =>
      .error { line := next.line, reason := .unexpected expected (some (next.kind, next.text)) }

def takeIf? (test : Lexeme → Bool) : Reader (Option Lexeme) := fun _ lexemes =>
  match lexemes with
  | [] => .ok (none, lexemes)
  | next :: rest => if test next then .ok (some next, rest) else .ok (none, lexemes)

/-- Takes the next lexeme if it is of the given kind, and says whether it did. -/
def skip? (kind : TokenKind) : Reader Bool := do
  return (← takeIf? fun lexeme => lexeme.kind == kind).isSome

def skipWord? (word : String) : Reader Bool := do
  return (← takeIf? fun lexeme => lexeme.isWord word).isSome

/-- Takes a lexeme of the given kind, which is called `expected` if it is not there. -/
def expectKind (kind : TokenKind) (expected : Expected) : Reader Lexeme := do
  match ← takeIf? fun lexeme => lexeme.kind == kind with
  | some lexeme => return lexeme
  | none => unexpected expected

def expect (kind : TokenKind) : Reader Lexeme := expectKind kind (.token kind)

def identifier (expected : Expected) : Reader Lexeme := expectKind .identifier expected

def isNext (kind : TokenKind) : Reader Bool := do
  return (← remaining).head?.any fun lexeme => lexeme.kind == kind

def separatedRest (separator : TokenKind) (item : Reader α) : Nat → Reader (List α)
  | 0 => pure []
  | rounds + 1 => do
      if ← skip? separator then
        let first ← item
        let later ← separatedRest separator item rounds
        return first :: later
      else return []

def separated (separator : TokenKind) (item : Reader α) : Reader (List α) := do
  let first ← item
  let later ← separatedRest separator item (← remaining).length
  return first :: later

/-- Cuts off the words that continue a dotted name. -/
def splitDotted : List Lexeme → List Lexeme × List Lexeme
  | dot :: word :: rest =>
      if dot.kind = .dot ∧ word.kind = .identifier then
        let later := splitDotted rest
        (word :: later.1, later.2)
      else ([], dot :: word :: rest)
  | lexemes => ([], lexemes)

def qualifiedName (expected : Expected) : Reader String := do
  let first ← identifier expected
  let cut := splitDotted (← remaining)
  continueWith cut.2
  return joinWith "." (first.text :: cut.1.map Lexeme.text)

end Reader

end ApiCompat.Signature
