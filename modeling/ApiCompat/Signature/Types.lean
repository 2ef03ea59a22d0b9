import ApiCompat.Signature.Reader

/-!
# Reading annotations and types

Nullness is marked by annotations before a type or by a suffix after it.  All
marks of the outermost level have to agree; without any, the null mode
decides.  An array or varargs type is marked after its last bracket, since the
nullness of its elements is not kept.
-/

set_option autoImplicit false

namespace ApiCompat.Signature

open Reader

/-! ## Annotations -/

/-- Cuts off the lexemes up to the parenthesis that closes the `depth` open ones. -/
def splitArguments (depth : Nat) : List Lexeme → Option (List Lexeme × List Lexeme)
  | [] => none
  | next :: rest =>
      let depth :=
        match next.kind with
        | .leftParen => depth + 1
        | .rightParen => depth - 1
        | _ => depth
      if depth = 0 then some ([next], rest)
      else (splitArguments depth rest).map fun cut => (next :: cut.1, cut.2)

def annotationArguments : Reader Unit := do
  if ← isNext .leftParen then
    let line ← currentLine
    match splitArguments 0 (← remaining) with
    | none => failAt line .unterminatedArguments
    | some (_, rest) => continueWith rest

/-- Runs a reader and also returns the source text that it took. -/
def withSource {α : Type} (reader : Reader α) : Reader (α × String) := do
  let before ← remaining
  let value ← reader
  let after ← remaining
  return (value, Lexeme.sourceText (before.take (before.length - after.length)))

def annotationUse : Reader (String × String) :=
  withSource do
    let _ ← expect .atSign
    let name ← qualifiedName .annotationName
    annotationArguments
    return name

def mergeNullness (declared : Option Nullness) (incoming : Nullness) (line : Nat) :
    Reader (Option Nullness) :=
  match declared with
  | some nullness =>
      if nullness = incoming then pure (some incoming) else failAt line .conflictingAnnotations
  | none => pure (some incoming)

/-- The nullness declared by the annotations before a type, on top of what is
declared already, in at most `rounds` rounds. -/
def typeAnnotations (line : Nat) : Nat → Option Nullness → Reader (Option Nullness)
  | 0, declared => pure declared
  | rounds + 1, declared => do
      if ← isNext .atSign then
        let (name, _) ← annotationUse
        match Nullness.ofAnnotation? name with
        | some nullness =>
            let declared ← mergeNullness declared nullness line
            typeAnnotations line rounds declared
        | none => typeAnnotations line rounds declared
      else return declared

/-! ## Types -/

/-- A nullness suffix: `?` for nullable, `!` for unknown. -/
def nullnessSuffix : Reader (Option Nullness) := do
  if ← skip? .question then return some .nullable
  else if ← skip? .bang then return some .unspecified
  else return none

/-- The number of bracket pairs that follow, in at most `rounds` rounds. -/
def arrayDims : Nat → Reader Nat
  | 0 => pure 0
  | rounds + 1 => do
      if ← skip? .leftBracket then
        let _ ← expect .rightBracket
        let more ← arrayDims rounds
        return more + 1
      else return 0

def settleNullness (line : Nat) (declared suffix : Option Nullness) : Reader Nullness := do
  match declared, suffix with
  | none, none => return (← context).nullMode.bare
  | some nullness, none => return nullness
  | none, some nullness => return nullness
  | some nullness, some marked =>
      if nullness = marked then return nullness else failAt line .conflictingSuffix

def wildcardBound (type : Reader TypeRef) : Reader (Bound TypeRef) := do
  if ← skipWord? "extends" then return .upper (← type)
  else if ← skipWord? "super" then return .lower (← type)
  else return .unbounded

def typeArguments (type : Reader TypeRef) : Reader (List TypeRef) := do
  if ← skip? .less then
    let args ← separated .comma type
    let _ ← expect .greater
    return args
  else return []

/-- Reads a type nested at most `depth` deep; `declared` is the nullness stated
by annotations that stand apart from it.  Each level takes a lexeme before the
next begins, so at depth zero nothing is left to read. -/
def typeWithin : Nat → Option Nullness → Reader TypeRef
  | 0, _ => unexpected .typeName
  | depth + 1, declared => do
      let line ← currentLine
      let declared ← typeAnnotations line (← remaining).length declared
      if ← skip? .question then
        let bound ← wildcardBound (typeWithin depth none)
        return { name := "?", bound }
      else
        let name ← qualifiedName .typeName
        let args ← typeArguments (typeWithin depth none)
        let inner ← nullnessSuffix
        let dims ← arrayDims (← remaining).length
        let varargs ← skip? .ellipsis
        let outer ← nullnessSuffix
        let suffix := outer.or (if dims = 0 ∧ varargs = false then inner else none)
        let nullness ← settleNullness line declared suffix
        return { name, args, arrayDims := dims, varargs, nullness }

def typeRef (declared : Option Nullness) : Reader TypeRef := do
  typeWithin (← remaining).length declared

def plainType : Reader TypeRef := typeRef none

def typeParam : Reader TypeParam := do
  let name ← identifier .typeParameter
  if ← skipWord? "extends" then
    return { name := name.text, bounds := ← separated .ampersand plainType }
  else return { name := name.text }

def typeParams : Reader (List TypeParam) := do
  if ← skip? .less then
    let params ← separated .comma typeParam
    let _ ← expect .greater
    return params
  else return []

end ApiCompat.Signature
