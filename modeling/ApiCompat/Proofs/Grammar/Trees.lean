import ApiCompat.Proofs.Signature.Words

/-!
# Syntax trees of signature texts

A tree tells how the words of a text belong together.  `words` writes a tree
down again; what it declares depends on the null mode only where a named type
carries no mark (`TypeTree.typeIn`).  The trees are those of everything that
the reader takes, which is more than the grammar documents: commas between
supertypes may be left out, and a mark may stand before the brackets of an
array.
-/

set_option autoImplicit false

namespace ApiCompat.Grammar

open Signature

/-! ## Names and annotations -/

/-- A dotted name in its parts. -/
structure Name where
  first : String
  later : List String := []

def Name.text (name : Name) : String := joinWith "." (name.first :: name.later)

def Name.words (name : Name) : List Word :=
  .ident name.first :: name.later.flatMap fun part => [.dot, .ident part]

/-- Whether the last of the words closes the last of the open parentheses, and no word before
it does. -/
def closesAtEnd (depth : Nat) : List Word → Bool
  | [] => false
  | word :: rest =>
      if depthAfter depth word.kind = 0 then rest.isEmpty
      else closesAtEnd (depthAfter depth word.kind) rest

structure Enclosed (words : List Word) : Prop where
  opens : ∀ word ∈ words.head?, word.kind = .leftParen
  closes : closesAtEnd 0 words = true

structure AnnotationTree where
  name : Name
  /-- The arguments with their parentheses, if there are any. -/
  arguments : List Word
  enclosed : arguments = [] ∨ Enclosed arguments

def AnnotationTree.words (tree : AnnotationTree) : List Word :=
  .atSign :: (tree.name.words ++ tree.arguments)

/-- The nullness that the annotation declares, if it is one of nullness. -/
def AnnotationTree.nullness? (tree : AnnotationTree) : Option Nullness :=
  Nullness.ofAnnotation? tree.name.text

def annotationsWords (annotations : List AnnotationTree) : List Word :=
  annotations.flatMap AnnotationTree.words

/-! ## Types -/

/-- A nullness mark behind a type. -/
inductive Mark where
  | question
  | bang
deriving DecidableEq

def Mark.word : Mark → Word
  | question => .question
  | bang => .bang

def Mark.nullness : Mark → Nullness
  | question => .nullable
  | bang => .unspecified

def markWords (mark : Option Mark) : List Word := (mark.map Mark.word).toList

/-- What follows the name, the arguments and the bound of a type. -/
structure Ending where
  dims : Nat := 0
  varargs : Bool := false
  mark : Option Mark := none
deriving DecidableEq

def Ending.words (ending : Ending) : List Word :=
  dimWords ending.dims ++ (varargsWords ending.varargs ++ markWords ending.mark)

inductive TypeTree where
  /-- A named type; `inner` is a mark before its ending. -/
  | named (annotations : List AnnotationTree) (name : Name) (args : List TypeTree)
      (inner : Option Mark) (ending : Ending)
  | wildcard (annotations : List AnnotationTree) (bound : Bound TypeTree) (ending : Ending)

/-- The marks that speak about a type itself, not about the elements of an array. -/
def outerMarks (declared : Option Nullness) (annotations : List AnnotationTree)
    (inner : Option Mark) (ending : Ending) : List Nullness :=
  declared.toList ++ (annotations.filterMap AnnotationTree.nullness? ++
    ((ending.mark.or (if ending.dims = 0 ∧ ending.varargs = false then inner else none)).map
      Mark.nullness).toList)

namespace TypeTree

def annotations : TypeTree → List AnnotationTree
  | named annotations _ _ _ _ => annotations
  | wildcard annotations _ _ => annotations

/-- The marks of a type when `declared` is stated apart from it; a wildcard has none. -/
def marks (declared : Option Nullness) : TypeTree → List Nullness
  | named annotations _ _ inner ending => outerMarks declared annotations inner ending
  | wildcard _ _ _ => []

mutual

def words : TypeTree → List Word
  | named annotations name args inner ending =>
      annotationsWords annotations ++ (name.words ++ (argWords args ++
        (markWords inner ++ ending.words)))
  | wildcard annotations bound ending =>
      annotationsWords annotations ++ (.question :: (boundWords bound ++ ending.words))
termination_by structural type => type

def boundWords : Bound TypeTree → List Word
  | .unbounded => []
  | .upper type => .ident "extends" :: words type
  | .lower type => .ident "super" :: words type
termination_by structural bound => bound

def argWords : List TypeTree → List Word
  | [] => []
  | type :: rest => .less :: (words type ++ moreArgWords rest)
termination_by structural types => types

def moreArgWords : List TypeTree → List Word
  | [] => [.greater]
  | type :: rest => .comma :: (words type ++ moreArgWords rest)
termination_by structural types => types

end

mutual

def typeIn (mode : NullMode) (declared : Option Nullness) : TypeTree → TypeRef
  | named annotations name args inner ending =>
      { name := name.text, args := typesIn mode args, arrayDims := ending.dims,
        varargs := ending.varargs,
        nullness := (outerMarks declared annotations inner ending).head?.getD mode.bare }
  | wildcard _ bound _ => { name := "?", bound := boundIn mode bound }
termination_by structural type => type

def boundIn (mode : NullMode) : Bound TypeTree → Bound TypeRef
  | .unbounded => .unbounded
  | .upper type => .upper (typeIn mode none type)
  | .lower type => .lower (typeIn mode none type)
termination_by structural bound => bound

def typesIn (mode : NullMode) : List TypeTree → List TypeRef
  | [] => []
  | type :: rest => typeIn mode none type :: typesIn mode rest
termination_by structural types => types

end

/-- A type that carries all its marks. -/
def plainIn (mode : NullMode) (type : TypeTree) : TypeRef := type.typeIn mode none

theorem typesIn_eq (mode : NullMode) (types : List TypeTree) :
    typesIn mode types = types.map (plainIn mode) := by
  induction types with
  | nil => rfl
  | cons type types ih => simp [typesIn, ih, plainIn]

theorem argWords_eq (types : List TypeTree) (filled : types ≠ []) :
    argWords types = .less :: (joinWords [.comma] (types.map words) ++ [.greater]) := by
  have more : ∀ types : List TypeTree, moreArgWords types =
      (types.map words).flatMap (fun words => [.comma] ++ words) ++ [.greater] := by
    intro types
    induction types with
    | nil => rfl
    | cons type types ih => simp [moreArgWords, ih]
  cases types with
  | nil => exact absurd rfl filled
  | cons type rest => simp [argWords, more, joinWords]

theorem length_words_pos (type : TypeTree) : 0 < type.words.length := by
  cases type with
  | named annotations name args inner ending =>
      simp only [words, Name.words, List.length_append, List.length_cons]
      omega
  | wildcard annotations bound ending =>
      simp only [words, List.length_append, List.length_cons]
      omega

end TypeTree

structure TypeParamTree where
  name : String
  bounds : List TypeTree := []

def TypeParamTree.words (param : TypeParamTree) : List Word :=
  .ident param.name ::
    if param.bounds.isEmpty then []
    else .ident "extends" :: joinWords [.ampersand] (param.bounds.map TypeTree.words)

def TypeParamTree.paramIn (mode : NullMode) (param : TypeParamTree) : TypeParam :=
  { name := param.name, bounds := param.bounds.map (TypeTree.plainIn mode) }

def TypeParamTree.listWords (params : List TypeParamTree) : List Word :=
  if params.isEmpty then []
  else .less :: (joinWords [.comma] (params.map TypeParamTree.words) ++ [.greater])

/-! ## Parts of declarations -/

/-- A modifier word with its meaning. -/
structure ModifierTree where
  text : String
  meaning : ModifierWord
  known : ModifierWord.ofWord? text = some meaning

/-- What stands in front of a declaration; `source` is an annotation as written. -/
inductive FrontTree where
  | annotated (use : AnnotationTree) (source : String)
  | modifier (word : ModifierTree)

namespace FrontTree

def words : FrontTree → List Word
  | annotated use _ => use.words
  | modifier word => [.ident word.text]

def nullness? : FrontTree → Option Nullness
  | annotated use _ => use.nullness?
  | modifier _ => none

/-- Annotations of nullness are no modifiers. -/
def apply (modifiers : Modifiers) : FrontTree → Modifiers
  | annotated use source =>
      if use.nullness?.isSome then modifiers else modifiers.annotate source
  | modifier word => modifiers.add word.meaning

end FrontTree

def frontWords (front : List FrontTree) : List Word := front.flatMap FrontTree.words

def frontModifiers (front : List FrontTree) : Modifiers := front.foldl FrontTree.apply {}

def frontNullness (front : List FrontTree) : Option Nullness :=
  (front.filterMap FrontTree.nullness?).head?

structure ParameterTree where
  type : TypeTree
  name : Option String := none

def ParameterTree.words (parameter : ParameterTree) : List Word :=
  parameter.type.words ++ (parameter.name.map Word.ident).toList

def ParameterTree.parameterIn (mode : NullMode) (parameter : ParameterTree) : Parameter :=
  { name := parameter.name, type := parameter.type.plainIn mode }

def ParameterTree.listWords (parameters : List ParameterTree) : List Word :=
  .leftParen :: (joinWords [.comma] (parameters.map ParameterTree.words) ++ [.rightParen])

def throwsWords (types : List TypeTree) : List Word :=
  if types.isEmpty then []
  else .ident "throws" :: joinWords [.comma] (types.map TypeTree.words)

/-- A value, which ends before the next semicolon; `source` is the value as written. -/
structure ValueTree where
  words : List Word
  source : String
  filled : words ≠ []
  plain : ∀ word ∈ words, word.kind ≠ .semicolon

def ValueTree.clauseWords (sign : Word) : Option ValueTree → List Word
  | some value => sign :: value.words
  | none => []

/-! ## Members -/

structure ConstructorTree where
  front : List FrontTree := []
  typeParams : List TypeParamTree := []
  name : Name
  parameters : List ParameterTree := []
  throws : List TypeTree := []

def ConstructorTree.words (item : ConstructorTree) : List Word :=
  frontWords item.front ++ (TypeParamTree.listWords item.typeParams ++ (item.name.words ++
    (ParameterTree.listWords item.parameters ++ (throwsWords item.throws ++ [.semicolon]))))

def ConstructorTree.constructorIn (mode : NullMode) (item : ConstructorTree) : Constructor :=
  { name := item.name.text, modifiers := frontModifiers item.front,
    typeParams := item.typeParams.map (TypeParamTree.paramIn mode),
    parameters := item.parameters.map (ParameterTree.parameterIn mode),
    throws := item.throws.map (TypeTree.plainIn mode) }

structure MethodTree where
  front : List FrontTree := []
  typeParams : List TypeParamTree := []
  returnType : TypeTree
  name : String
  parameters : List ParameterTree := []
  throws : List TypeTree := []
  defaultValue : Option ValueTree := none

def MethodTree.words (item : MethodTree) : List Word :=
  frontWords item.front ++ (TypeParamTree.listWords item.typeParams ++ (item.returnType.words ++
    (.ident item.name :: (ParameterTree.listWords item.parameters ++ (throwsWords item.throws ++
      (ValueTree.clauseWords (.ident "default") item.defaultValue ++ [.semicolon]))))))

def MethodTree.methodIn (mode : NullMode) (item : MethodTree) : Method :=
  { name := item.name, modifiers := frontModifiers item.front,
    typeParams := item.typeParams.map (TypeParamTree.paramIn mode),
    returnType := item.returnType.typeIn mode (frontNullness item.front),
    parameters := item.parameters.map (ParameterTree.parameterIn mode),
    throws := item.throws.map (TypeTree.plainIn mode),
    defaultValue := item.defaultValue.map ValueTree.source }

structure FieldTree where
  front : List FrontTree := []
  type : TypeTree
  name : String
  value : Option ValueTree := none
  isEnumConstant : Bool := false

def FieldTree.words (item : FieldTree) : List Word :=
  frontWords item.front ++ (item.type.words ++ (.ident item.name ::
    (ValueTree.clauseWords .equals item.value ++ [.semicolon])))

def FieldTree.fieldIn (mode : NullMode) (item : FieldTree) : Field :=
  { name := item.name, modifiers := frontModifiers item.front,
    type := item.type.typeIn mode (frontNullness item.front),
    value := item.value.map ValueTree.source, isEnumConstant := item.isEnumConstant }

inductive MemberTree where
  | constructor (item : ConstructorTree)
  | method (item : MethodTree)
  | field (item : FieldTree)

namespace MemberTree

def keyword : MemberTree → String
  | constructor _ => "ctor"
  | method _ => "method"
  | field item => if item.isEnumConstant then "enum_constant" else "field"

def ownWords : MemberTree → List Word
  | constructor item => item.words
  | method item => item.words
  | field item => item.words

def words (member : MemberTree) : List Word := .ident member.keyword :: member.ownWords

def memberIn (mode : NullMode) : MemberTree → Member
  | constructor item => .constructor (item.constructorIn mode)
  | method item => .method (item.methodIn mode)
  | field item => .field (item.fieldIn mode)

/-- What identifies the member; nullness takes no part in it. -/
def key (member : MemberTree) : MemberKey := (member.memberIn .legacy).key

end MemberTree

/-! ## Classes and packages -/

/-- The supertypes in a list; `comma` tells whether one stands before the type. -/
structure ListedType where
  comma : Bool := true
  type : TypeTree

structure TypeListTree where
  first : TypeTree
  later : List ListedType := []
  /-- Whether a comma stands behind the last type. -/
  trailing : Bool := false

def commaWords (comma : Bool) : List Word := if comma then [.comma] else []

def ListedType.words (listed : ListedType) : List Word :=
  commaWords listed.comma ++ listed.type.words

def TypeListTree.words (list : TypeListTree) : List Word :=
  list.first.words ++ (list.later.flatMap ListedType.words ++ commaWords list.trailing)

def TypeListTree.types (list : TypeListTree) : List TypeTree :=
  list.first :: list.later.map ListedType.type

/-- What a class extends: a class, or the interfaces of an interface. -/
inductive ExtendsTree where
  | superclass (type : TypeTree)
  | interfaces (list : TypeListTree)

def ExtendsTree.words : ExtendsTree → List Word
  | superclass type => type.words
  | interfaces list => list.words

def clauseWords (keyword : String) : Option (List Word) → List Word
  | some words => .ident keyword :: words
  | none => []

structure SupertypesTree where
  extension : Option ExtendsTree := none
  implemented : Option TypeListTree := none

namespace SupertypesTree

def words (supertypes : SupertypesTree) : List Word :=
  clauseWords "extends" (supertypes.extension.map ExtendsTree.words) ++
    clauseWords "implements" (supertypes.implemented.map TypeListTree.words)

def superclass (supertypes : SupertypesTree) : Option TypeTree :=
  supertypes.extension.bind fun extension =>
    match extension with
    | .superclass type => some type
    | .interfaces _ => none

def interfaces (supertypes : SupertypesTree) : List TypeTree :=
  (supertypes.extension.elim [] fun extension =>
    match extension with
    | .superclass _ => []
    | .interfaces list => list.types) ++ supertypes.implemented.elim [] TypeListTree.types

end SupertypesTree

structure ClassTree where
  front : List FrontTree := []
  kind : ClassKind
  name : Name
  typeParams : List TypeParamTree := []
  supertypes : SupertypesTree := {}
  members : List (Located MemberTree) := []

def ClassTree.headWords (cls : ClassTree) : List Word :=
  frontWords cls.front ++ (kindWords cls.kind ++ (cls.name.words ++
    (TypeParamTree.listWords cls.typeParams ++ cls.supertypes.words)))

def ClassTree.words (cls : ClassTree) : List Word :=
  cls.headWords ++ (.leftBrace :: (cls.members.flatMap (fun found => found.item.words) ++
    [.rightBrace]))

/-- The members in order of their keys, each with its line. -/
def membersIn (mode : NullMode) (members : List (Located MemberTree)) :
    OrderedMap MemberKey (Located Member) :=
  .ofList (members.map fun found => (found.item.key, ⟨found.line, found.item.memberIn mode⟩))

def ClassTree.classIn (mode : NullMode) (package : String) (cls : ClassTree) : ClassDecl :=
  { name := cls.name.text, qualifiedName := qualify package cls.name.text, kind := cls.kind,
    modifiers := frontModifiers cls.front,
    typeParams := cls.typeParams.map (TypeParamTree.paramIn mode),
    superclass := cls.supertypes.superclass.map (TypeTree.plainIn mode),
    interfaces := .ofList (cls.supertypes.interfaces.map (TypeTree.plainIn mode)),
    members := membersIn mode cls.members }

structure PackageTree where
  name : Name
  classes : List (Located ClassTree) := []

def PackageTree.words (package : PackageTree) : List Word :=
  .ident "package" :: (package.name.words ++
    (.leftBrace :: (package.classes.flatMap (fun found => found.item.words) ++ [.rightBrace])))

def fileWords (blocks : List (Located PackageTree)) : List Word :=
  blocks.flatMap fun found => found.item.words

end ApiCompat.Grammar
