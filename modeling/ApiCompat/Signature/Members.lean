import ApiCompat.Signature.Types

/-!
# Reading members

A declaration begins with annotations and modifier words in any order.  A
nullness annotation there belongs to the type of a method or field.  Constant
and default values are kept as written, up to the semicolon.
-/

set_option autoImplicit false

namespace ApiCompat.Signature

open Reader

structure Preamble where
  modifiers : Modifiers := {}
  nullness : Option Nullness := none

/-- Reads annotations and modifier words on top of what was read before, in at
most `rounds` rounds.  An annotation sign before `interface` declares an
annotation type and is left alone. -/
def preambleFrom : Nat → Preamble → Reader Preamble
  | 0, sofar => pure sofar
  | rounds + 1, sofar => do
      match ← remaining with
      | [] => return sofar
      | next :: rest =>
          if next.kind = .atSign then
            if rest.head?.any (fun lexeme => lexeme.text == "interface") then return sofar
            else
              let (name, source) ← annotationUse
              match Nullness.ofAnnotation? name with
              | some nullness =>
                  let nullness ← mergeNullness sofar.nullness nullness next.line
                  preambleFrom rounds { sofar with nullness }
              | none =>
                  preambleFrom rounds { sofar with modifiers := sofar.modifiers.annotate source }
          else if next.kind = .identifier then
            match sofar.modifiers.applyWord? next.text with
            | some modifiers =>
                continueWith rest
                preambleFrom rounds { sofar with modifiers }
            | none => return sofar
          else return sofar

def preamble : Reader Preamble := do
  preambleFrom (← remaining).length {}

def parameter : Reader Parameter := do
  let type ← plainType
  let name ← takeIf? fun lexeme => lexeme.kind == .identifier
  return { name := name.map Lexeme.text, type }

def parameters : Reader (List Parameter) := do
  let _ ← expect .leftParen
  if ← skip? .rightParen then return []
  else
    let items ← separated .comma parameter
    let _ ← expect .rightParen
    return items

def throwsClause : Reader (List TypeRef) := do
  if ← skipWord? "throws" then separated .comma plainType else return []

def isSemicolon (lexeme : Lexeme) : Bool := lexeme.kind == .semicolon

/-- Reads the text of a value up to the next semicolon, which it leaves. -/
def rawValue : Reader String := do
  let lexemes ← remaining
  let taken := lexemes.takeWhile fun lexeme => !isSemicolon lexeme
  if taken.isEmpty then unexpected .value
  else
    continueWith (lexemes.dropWhile fun lexeme => !isSemicolon lexeme)
    if (← remaining).isEmpty then unexpected (.token .semicolon)
    else return Lexeme.sourceText taken

def constructor : Reader Constructor := do
  let front ← preamble
  let typeParams ← typeParams
  let name ← qualifiedName .constructorName
  let parameters ← parameters
  let throws ← throwsClause
  let _ ← expect .semicolon
  return { name, modifiers := front.modifiers, typeParams, parameters, throws }

def method : Reader Method := do
  let front ← preamble
  let typeParams ← typeParams
  let returnType ← typeRef front.nullness
  let name ← identifier .methodName
  let parameters ← parameters
  let throws ← throwsClause
  let defaultValue ← if ← skipWord? "default" then some <$> rawValue else pure none
  let _ ← expect .semicolon
  return { name := name.text, modifiers := front.modifiers, typeParams, returnType, parameters,
           throws, defaultValue }

def field (isEnumConstant : Bool) : Reader Field := do
  let front ← preamble
  let type ← typeRef front.nullness
  let name ← identifier .fieldName
  let value ← if ← skip? .equals then some <$> rawValue else pure none
  let _ ← expect .semicolon
  return { name := name.text, modifiers := front.modifiers, type, value, isEnumConstant }

def member : Reader (Located Member) := do
  let keyword ← identifier .memberDeclaration
  let line := keyword.line
  match keyword.text with
  | "ctor" => return { line, item := .constructor (← constructor) }
  | "method" => return { line, item := .method (← method) }
  | "field" => return { line, item := .field (← field false) }
  | "enum_constant" => return { line, item := .field (← field true) }
  | other => failAt line (.unsupportedMember other)

end ApiCompat.Signature
