import ApiCompat.Proofs.Cursor.Basic

/-!
# Walking over a signature text

Package blocks, classes, members and types are walked over with one cursor.  A
loop is given more rounds than there are lexemes, and does not go on when it
has used them up.
-/

set_option autoImplicit false

namespace ApiCompat.Signature.Cursor

/-! ## Lists and names -/

section Lists

variable {α : Type}

def separatedRest (separator : TokenKind) (item : Walk α) : Nat → Walk (List α)
  | 0 => halt .endless
  | rounds + 1 => do
      if ← eat separator then
        let first ← item
        let later ← separatedRest separator item rounds
        return first :: later
      else return []

def separated (separator : TokenKind) (item : Walk α) : Walk (List α) := do
  let first ← item
  let later ← separatedRest separator item (← rounds)
  return first :: later

end Lists

def goesOn (dot word : Option Lexeme) : Bool :=
  dot.any (fun lexeme => lexeme.kind == .dot) && word.any fun lexeme => lexeme.kind == .identifier

def nameFrom (expected : Expected) : Nat → String → Walk String
  | 0, _ => halt .endless
  | rounds + 1, name => do
      let dot ← here
      let word ← ahead 1
      if goesOn dot word then
        move 1
        let next ← identifier expected
        nameFrom expected rounds (name ++ "." ++ next.text)
      else return name

def qualifiedName (expected : Expected) : Walk String := part .name do
  let first ← identifier expected
  nameFrom expected (← rounds) first.text

/-! ## Annotations -/

/-- How many parentheses are open behind a lexeme of the kind: with none to close, less than
none. -/
def depthBehind (depth : Int) : TokenKind → Int
  | .leftParen => depth + 1
  | .rightParen => depth - 1
  | _ => depth

/-- Goes on behind `depth` open parentheses until the last of them is closed, and says where. -/
def argumentsFrom (line : Nat) : Nat → Int → Walk Nat
  | 0, _ => halt .endless
  | rounds + 1, depth => do
      match ← advance with
      | none => failAt line .unterminatedArguments
      | some next =>
          count (depthBehind depth next.kind)
          if depthBehind depth next.kind = 0 then return next.stop
          else argumentsFrom line rounds (depthBehind depth next.kind)

def annotationStop (nameStop : Nat) : Walk Nat := do
  if ← isHere .leftParen then
    let line ← currentLine
    argumentsFrom line (← rounds) 0
  else return nameStop

/-- Goes over an annotation, and says where it starts and stops. -/
def annotationSpan : Walk (String × Nat × Nat) := do
  let sign ← expect .atSign
  let name ← qualifiedName .annotationName
  let last ← lookUp ((← position) - 1)
  let stop ← annotationStop last.stop
  return (name, sign.start, stop)

def annotationUse : Walk (String × String) := part .annotationUse do
  let (name, start, stop) ← annotationSpan
  let source ← slice start stop
  return (name, source)

def mergeNullness (declared : Option Nullness) (incoming : Nullness) (line : Nat) :
    Walk (Option Nullness) :=
  match declared with
  | some nullness =>
      if nullness = incoming then pure (some incoming) else failAt line .conflictingAnnotations
  | none => pure (some incoming)

def typeAnnotations (line : Nat) : Nat → Option Nullness → Walk (Option Nullness)
  | 0, _ => halt .endless
  | rounds + 1, declared => do
      if ← isHere .atSign then
        let (name, _) ← annotationUse
        match Nullness.ofAnnotation? name with
        | some nullness =>
            let declared ← mergeNullness declared nullness line
            typeAnnotations line rounds declared
        | none => typeAnnotations line rounds declared
      else return declared

/-! ## Types -/

def nullnessSuffix : Walk (Option Nullness) := do
  if ← eat .question then return some .nullable
  else if ← eat .bang then return some .unspecified
  else return none

def arrayDims : Nat → Walk Nat
  | 0 => halt .endless
  | rounds + 1 => do
      if ← eat .leftBracket then
        let _ ← expect .rightBracket
        let more ← arrayDims rounds
        return more + 1
      else return 0

def settleNullness (line : Nat) (declared suffix : Option Nullness) : Walk Nullness := do
  match declared, suffix with
  | none, none => return (← nullMode).bare
  | some nullness, none => return nullness
  | none, some nullness => return nullness
  | some nullness, some marked =>
      if nullness = marked then return nullness else failAt line .conflictingSuffix

def wildcardBound (type : Walk TypeRef) : Walk (Bound TypeRef) := do
  if ← eatWord "extends" then return .upper (← type)
  else if ← eatWord "super" then return .lower (← type)
  else return .unbounded

def typeArguments (type : Walk TypeRef) : Walk (List TypeRef) := do
  if ← eat .less then
    let args ← separated .comma type
    let _ ← expect .greater
    return args
  else return []

/-- Goes over a type in which types are nested less than `depth` deep. -/
def typeWithin : Nat → Option Nullness → Walk TypeRef
  | 0, _ => halt .endless
  | depth + 1, declared => part .type do
      let line ← currentLine
      let declared ← typeAnnotations line (← rounds) declared
      if ← eat .question then
        let bound ← wildcardBound (typeWithin depth none)
        return { name := "?", bound }
      else
        let name ← qualifiedName .typeName
        let args ← typeArguments (typeWithin depth none)
        let inner ← nullnessSuffix
        let dims ← arrayDims (← rounds)
        let varargs ← eat .ellipsis
        let outer ← nullnessSuffix
        let suffix := outer.or (if dims = 0 ∧ varargs = false then inner else none)
        let nullness ← settleNullness line declared suffix
        return { name, args, arrayDims := dims, varargs, nullness }

def typeRef (declared : Option Nullness) : Walk TypeRef := do
  typeWithin (← rounds) declared

def plainType : Walk TypeRef := typeRef none

def typeParam : Walk TypeParam := do
  let name ← identifier .typeParameter
  if ← eatWord "extends" then
    return { name := name.text, bounds := ← separated .ampersand plainType }
  else return { name := name.text }

def typeParamList : Walk (List TypeParam) := part .typeParams do
  let _ ← expect .less
  let params ← separated .comma typeParam
  let _ ← expect .greater
  return params

def typeParams : Walk (List TypeParam) := do
  if ← isHere .less then typeParamList else return []

/-! ## Members -/

def preambleFrom : Nat → Preamble → Walk Preamble
  | 0, _ => halt .endless
  | rounds + 1, sofar => do
      if ← isHere .atSign then
        let word ← ahead 1
        if word.any (fun lexeme => lexeme.text == "interface") then return sofar
        else
          let line ← currentLine
          let (name, source) ← annotationUse
          match Nullness.ofAnnotation? name with
          | some nullness =>
              let nullness ← mergeNullness sofar.nullness nullness line
              preambleFrom rounds { sofar with nullness }
          | none =>
              preambleFrom rounds { sofar with modifiers := sofar.modifiers.annotate source }
      else
        match (← here).bind fun next =>
            if next.kind = .identifier then sofar.modifiers.applyWord? next.text else none with
        | some modifiers =>
            move 1
            preambleFrom rounds { sofar with modifiers }
        | none => return sofar

def preamble : Walk Preamble := do
  preambleFrom (← rounds) {}

def parameter : Walk Parameter := do
  let type ← plainType
  if ← isHere .identifier then
    let name ← advance
    return { name := name.map Lexeme.text, type }
  else return { name := none, type }

def parameters : Walk (List Parameter) := do
  let _ ← expect .leftParen
  if ← eat .rightParen then return []
  else
    let items ← separated .comma parameter
    let _ ← expect .rightParen
    return items

def throwsClause : Walk (List TypeRef) := do
  if ← eatWord "throws" then separated .comma plainType else return []

def valueFrom (start : Nat) : Nat → Nat → Walk String
  | 0, _ => halt .endless
  | rounds + 1, stop => do
      match ← here with
      | none => unexpected (.token .semicolon)
      | some next =>
          if next.kind = .semicolon then slice start stop
          else
            move 1
            valueFrom start rounds next.stop

def rawValue : Walk String := do
  match ← here with
  | none => unexpected .value
  | some first =>
      if first.kind = .semicolon then unexpected .value
      else valueFrom first.start (← rounds) first.start

def constructor : Walk Constructor := do
  let front ← preamble
  let typeParams ← typeParams
  let name ← qualifiedName .constructorName
  let parameters ← parameters
  let throws ← throwsClause
  let _ ← expect .semicolon
  return { name, modifiers := front.modifiers, typeParams, parameters, throws }

def method : Walk Method := do
  let front ← preamble
  let typeParams ← typeParams
  let returnType ← typeRef front.nullness
  let name ← identifier .methodName
  let parameters ← parameters
  let throws ← throwsClause
  let defaultValue ← if ← eatWord "default" then some <$> rawValue else pure none
  let _ ← expect .semicolon
  return { name := name.text, modifiers := front.modifiers, typeParams, returnType, parameters,
           throws, defaultValue }

def field (isEnumConstant : Bool) : Walk Field := do
  let front ← preamble
  let type ← typeRef front.nullness
  let name ← identifier .fieldName
  let value ← if ← eat .equals then some <$> rawValue else pure none
  let _ ← expect .semicolon
  return { name := name.text, modifiers := front.modifiers, type, value, isEnumConstant }

def memberBehind (keyword : String) (line : Nat) : Walk (Located Member) :=
  if keyword = "ctor" then return { line, item := .constructor (← constructor) }
  else if keyword = "method" then return { line, item := .method (← method) }
  else if keyword = "field" then return { line, item := .field (← field false) }
  else if keyword = "enum_constant" then return { line, item := .field (← field true) }
  else failAt line (.unsupportedMember keyword)

def member : Walk (Located Member) := part .member do
  let keyword ← identifier .memberDeclaration
  memberBehind keyword.text keyword.line

/-! ## Classes -/

def classKind : Walk ClassKind := do
  if ← eatWord "class" then return .classKind
  else if ← eatWord "interface" then return .interfaceKind
  else if ← eatWord "enum" then return .enumKind
  else
    let sign ← isHere .atSign
    let word ← ahead 1
    if sign && word.any (fun lexeme => lexeme.text == "interface") then
      move 2
      return .annotationKind
    else unexpected .classKeyword

def typeListRest : Nat → Walk (List TypeRef)
  | 0 => halt .endless
  | rounds + 1 => do
      let _ ← eat .comma
      match ← here with
      | none => return []
      | some next =>
          if next.kind = .leftBrace || next.isWord "implements" then return []
          else
            let first ← plainType
            let later ← typeListRest rounds
            return first :: later

def typeList : Walk (List TypeRef) := part .typeList do
  let first ← plainType
  let later ← typeListRest (← rounds)
  return first :: later

def extendsClause (kind : ClassKind) : Walk (Option TypeRef × List TypeRef) := do
  if ← eatWord "extends" then
    if kind = .interfaceKind then
      let types ← typeList
      return (none, types)
    else
      let type ← plainType
      return (some type, [])
  else return (none, [])

def implementsClause : Walk (List TypeRef) := do
  if ← eatWord "implements" then typeList else return []

def supertypeClauses (kind : ClassKind) : Walk (Option TypeRef × OrderedSet TypeRef) := do
  let (superclass, extended) ← extendsClause kind
  let implemented ← implementsClause
  return (superclass, (OrderedSet.ofList extended).insertAll implemented)

def classBody (line : Nat) (owner : String) :
    Nat → OrderedMap MemberKey (Located Member) → Walk (OrderedMap MemberKey (Located Member))
  | 0, _ => halt .endless
  | rounds + 1, members => do
      if ← eat .rightBrace then return members
      else if (← here).isNone then failAt line (.unterminatedClass owner)
      else
        let found ← member
        let key := found.item.key
        if members.contains key then failAt found.line (.duplicateMember key owner)
        else classBody line owner rounds (members.insert key found)

def classDecl (package : String) : Walk (Located ClassDecl) := part .classDecl do
  let line ← currentLine
  let front ← preamble
  let kind ← classKind
  let name ← qualifiedName .className
  let qualifiedName := qualify package name
  let typeParams ← typeParams
  let (superclass, interfaces) ← supertypeClauses kind
  let _ ← expect .leftBrace
  let members ← classBody line qualifiedName (← rounds) .empty
  return {
    line
    item := { name, qualifiedName, kind, modifiers := front.modifiers, typeParams, superclass,
              interfaces, members } }

/-! ## Packages -/

def packageBody (line : Nat) (package : String) :
    Nat → OrderedMap String (Located ClassDecl) → Walk (OrderedMap String (Located ClassDecl))
  | 0, _ => halt .endless
  | rounds + 1, classes => do
      if ← eat .rightBrace then return classes
      else if (← here).isNone then failAt line (.unterminatedPackage package)
      else
        let found ← classDecl package
        if classes.contains found.item.name then
          failAt found.line (.duplicateClass found.item.qualifiedName)
        else packageBody line package rounds (classes.insert found.item.name found)

def packageBlock (packages : OrderedMap String (Located Package)) :
    Walk (OrderedMap String (Located Package)) := do
  let line ← currentLine
  if ← eatWord "package" then
    let name ← qualifiedName .packageName
    let _ ← expect .leftBrace
    let opened := (packages.get? name).getD { line, item := { name } }
    let classes ← packageBody line name (← rounds) opened.item.classes
    return packages.insert name { opened with item := { opened.item with classes } }
  else unexpected .packageKeyword

def packageBlocks : Nat → OrderedMap String (Located Package) →
    Walk (OrderedMap String (Located Package))
  | 0, _ => halt .endless
  | rounds + 1, packages => do
      if (← here).isNone then return packages
      else packageBlocks rounds (← packageBlock packages)

/-- The packages that all the lexemes of a text are walked over for. -/
def packages : Walk (OrderedMap String (Located Package)) := do
  packageBlocks (← rounds) .empty

def run (source : Source) : Run (OrderedMap String (Located Package)) := packages source 0

end ApiCompat.Signature.Cursor
