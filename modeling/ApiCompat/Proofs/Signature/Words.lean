import ApiCompat.Api.Basic
import ApiCompat.Proofs.Signature.Captured
import ApiCompat.Signature.Write

/-!
# The words of a written API

For each part of the canonical text the words into which it splits.  The
functions follow the writer clause by clause but know nothing of blanks.
-/

set_option autoImplicit false

namespace ApiCompat.Signature

/-! ## Types -/

def annotationMark : Nullness → List Word
  | .unspecified => []
  | .nullable => [.atSign, .ident "Nullable"]
  | .nonNull => [.atSign, .ident "NonNull"]

def beforeWords : NullMode → Nullness → List Word
  | .legacy, nullness => annotationMark nullness
  | .nullAware, _ => []

def afterWords : NullMode → Nullness → List Word
  | .nullAware, .nullable => [.question]
  | .nullAware, .unspecified => [.bang]
  | _, _ => []

/-- The name of a type, or the sign of a wildcard. -/
def headWords (name : String) : List Word := if name = "?" then [.question] else nameWords name

def dimWords : Nat → List Word
  | 0 => []
  | dims + 1 => .leftBracket :: .rightBracket :: dimWords dims

def varargsWords (varargs : Bool) : List Word := if varargs then [.ellipsis] else []

/-- The marks of a type; wildcards have none. -/
def markedWords (mode : NullMode) (type : TypeRef) (bare : List Word) : List Word :=
  if type.isWildcard then bare
  else beforeWords mode type.nullness ++ (bare ++ afterWords mode type.nullness)

/-- The marks of a type but for those before it. -/
def closedWords (mode : NullMode) (type : TypeRef) (bare : List Word) : List Word :=
  if type.isWildcard then bare else bare ++ afterWords mode type.nullness

mutual

def bareWords (mode : NullMode) : TypeRef → List Word
  | ⟨name, args, bound, dims, varargs, _⟩ =>
      headWords name ++ (boundWords mode bound ++ (argWords mode args ++
        (dimWords dims ++ varargsWords varargs)))
termination_by structural type => type

def boundWords (mode : NullMode) : Bound TypeRef → List Word
  | .unbounded => []
  | .upper type => .ident "extends" :: markedWords mode type (bareWords mode type)
  | .lower type => .ident "super" :: markedWords mode type (bareWords mode type)
termination_by structural bound => bound

def argWords (mode : NullMode) : List TypeRef → List Word
  | [] => []
  | type :: rest => .less :: (markedWords mode type (bareWords mode type) ++ moreArgWords mode rest)
termination_by structural types => types

def moreArgWords (mode : NullMode) : List TypeRef → List Word
  | [] => [.greater]
  | type :: rest =>
      .comma :: (markedWords mode type (bareWords mode type) ++ moreArgWords mode rest)
termination_by structural types => types

end

def typeWords (mode : NullMode) (type : TypeRef) : List Word :=
  markedWords mode type (bareWords mode type)

/-- The words of a member's own type, whose mark before it stands among the modifiers. -/
def ownTypeWords (mode : NullMode) (type : TypeRef) : List Word :=
  closedWords mode type (bareWords mode type)

/-! ## Parts of declarations -/

/-- The mark among the modifiers for a member's own type. -/
def ownMarkWords (mode : NullMode) : Option TypeRef → List Word
  | some type => beforeWords mode type.nullness
  | none => []

def preambleWords (mode : NullMode) (modifiers : Modifiers) (ownType : Option TypeRef) :
    List Word :=
  modifiers.annotations.flatMap annotationWords ++
    (ownMarkWords mode ownType ++ modifiers.words.map Word.ident)

def typeParamWords (mode : NullMode) (param : TypeParam) : List Word :=
  .ident param.name ::
    if param.bounds.isEmpty then []
    else .ident "extends" :: joinWords [.ampersand] (param.bounds.map (typeWords mode))

def typeParamsWords (mode : NullMode) (params : List TypeParam) : List Word :=
  if params.isEmpty then []
  else .less :: (joinWords [.comma] (params.map (typeParamWords mode)) ++ [.greater])

def parameterWords (mode : NullMode) (parameter : Parameter) : List Word :=
  typeWords mode parameter.type ++ (parameter.name.map Word.ident).toList

def parametersWords (mode : NullMode) (parameters : List Parameter) : List Word :=
  .leftParen :: (joinWords [.comma] (parameters.map (parameterWords mode)) ++ [.rightParen])

def typesWords (mode : NullMode) (keyword : String) (types : List TypeRef) : List Word :=
  if types.isEmpty then [] else .ident keyword :: joinWords [.comma] (types.map (typeWords mode))

def valueClauseWords (sign : Word) : Option String → List Word
  | some value => sign :: valueWords value
  | none => []

/-! ## Declarations -/

def constructorWords (mode : NullMode) (item : Constructor) : List Word :=
  preambleWords mode item.modifiers none ++ (typeParamsWords mode item.typeParams ++
    (nameWords item.name ++ (parametersWords mode item.parameters ++
      (typesWords mode "throws" item.throws ++ [.semicolon]))))

def methodWords (mode : NullMode) (item : Method) : List Word :=
  preambleWords mode item.modifiers (some item.returnType) ++
    (typeParamsWords mode item.typeParams ++ (ownTypeWords mode item.returnType ++
      (.ident item.name :: (parametersWords mode item.parameters ++
        (typesWords mode "throws" item.throws ++
          (valueClauseWords (.ident "default") item.defaultValue ++ [.semicolon]))))))

def fieldWords (mode : NullMode) (item : Field) : List Word :=
  preambleWords mode item.modifiers (some item.type) ++ (ownTypeWords mode item.type ++
    (.ident item.name :: (valueClauseWords .equals item.value ++ [.semicolon])))

def memberWords (mode : NullMode) : Member → List Word
  | .constructor item => .ident "ctor" :: constructorWords mode item
  | .method item => .ident "method" :: methodWords mode item
  | .field item =>
      .ident (if item.isEnumConstant then "enum_constant" else "field") :: fieldWords mode item

def kindWords : ClassKind → List Word
  | .classKind => [.ident "class"]
  | .interfaceKind => [.ident "interface"]
  | .enumKind => [.ident "enum"]
  | .annotationKind => [.atSign, .ident "interface"]

def supertypeWords (mode : NullMode) (kind : ClassKind) (superclass : Option TypeRef)
    (interfaces : List TypeRef) : List Word :=
  typesWords mode "extends" superclass.toList ++
    typesWords mode (interfacesKeyword kind) interfaces

def classWords (mode : NullMode) (cls : ClassDecl) : List Word :=
  preambleWords mode cls.modifiers none ++ (kindWords cls.kind ++ (nameWords cls.name ++
    (typeParamsWords mode cls.typeParams ++
      (supertypeWords mode cls.kind cls.superclass cls.interfaces.toList ++
        (.leftBrace :: (cls.members.values.flatMap (fun found => memberWords mode found.item) ++
          [.rightBrace]))))))

def packageWords (mode : NullMode) (package : Package) : List Word :=
  .ident "package" :: (nameWords package.name ++
    (.leftBrace :: (package.classes.values.flatMap (fun found => classWords mode found.item) ++
      [.rightBrace])))

def apiWords (api : Api) : List Word :=
  api.packages.values.flatMap fun found => packageWords api.nullMode found.item

end ApiCompat.Signature
