import ApiCompat.Api.Basic

/-!
# Writing an API as signature text

The canonical form: a header for the null mode, one line a declaration, two
blanks a level.  In legacy mode nullness is written as annotations, that of a
member's own type before its modifiers; in null-aware mode it is written as a
suffix.
-/

set_option autoImplicit false

namespace ApiCompat.Signature

/-! ## Types -/

def markBefore (mode : NullMode) (nullness : Nullness) : String :=
  match mode, nullness.annotationText? with
  | .legacy, some text => text ++ " "
  | _, _ => ""

def markAfter (mode : NullMode) (nullness : Nullness) : String :=
  match mode, nullness with
  | .nullAware, .nullable => "?"
  | .nullAware, .unspecified => "!"
  | _, _ => ""

/-- A written type with its nullness mark; wildcards have none. -/
def markType (mode : NullMode) (type : TypeRef) (bare : String) : String :=
  if type.isWildcard then bare
  else markBefore mode type.nullness ++ bare ++ markAfter mode type.nullness

mutual

/-- A type without its own nullness mark; the types inside it keep theirs. -/
def writeBare (mode : NullMode) : TypeRef → String
  | ⟨name, args, bound, dims, varargs, _⟩ =>
      name ++ writeBound mode bound ++ writeArgs mode args ++ TypeRef.suffixes dims varargs
termination_by structural type => type

def writeBound (mode : NullMode) : Bound TypeRef → String
  | .unbounded => ""
  | .upper type => " extends " ++ markType mode type (writeBare mode type)
  | .lower type => " super " ++ markType mode type (writeBare mode type)
termination_by structural bound => bound

def writeArgs (mode : NullMode) : List TypeRef → String
  | [] => ""
  | type :: rest => "<" ++ markType mode type (writeBare mode type) ++ writeMoreArgs mode rest
termination_by structural types => types

def writeMoreArgs (mode : NullMode) : List TypeRef → String
  | [] => ">"
  | type :: rest =>
      ", " ++ markType mode type (writeBare mode type) ++ writeMoreArgs mode rest
termination_by structural types => types

end

def writeType (mode : NullMode) (type : TypeRef) : String :=
  markType mode type (writeBare mode type)

/-- A member's own type, whose mark stands among the modifiers in legacy mode. -/
def writeOwnType (mode : NullMode) (type : TypeRef) : String :=
  match mode with
  | .legacy => writeBare mode type
  | .nullAware => writeType mode type

/-! ## Parts of declarations -/

/-- The annotation that stands among the modifiers for a member's own type. -/
def ownTypeMark (mode : NullMode) (ownType : Option TypeRef) : Option String :=
  match mode, ownType with
  | .legacy, some type => type.nullness.annotationText?
  | _, _ => none

def writePreamble (mode : NullMode) (modifiers : Modifiers) (ownType : Option TypeRef) : String :=
  String.join ((modifiers.annotations ++ (ownTypeMark mode ownType).toList ++
    modifiers.words).map fun word => word ++ " ")

def writeTypeParam (mode : NullMode) (param : TypeParam) : String :=
  if param.bounds.isEmpty then param.name
  else param.name ++ " extends " ++ joinWith " & " (param.bounds.map (writeType mode))

def writeTypeParams (mode : NullMode) (params : List TypeParam) : String :=
  if params.isEmpty then ""
  else "<" ++ joinWith ", " (params.map (writeTypeParam mode)) ++ ">"

def writeOwnTypeParams (mode : NullMode) (params : List TypeParam) : String :=
  if params.isEmpty then "" else writeTypeParams mode params ++ " "

def writeParameter (mode : NullMode) (parameter : Parameter) : String :=
  match parameter.name with
  | some name => writeType mode parameter.type ++ " " ++ name
  | none => writeType mode parameter.type

def writeParameters (mode : NullMode) (parameters : List Parameter) : String :=
  "(" ++ joinWith ", " (parameters.map (writeParameter mode)) ++ ")"

/-- A keyword and the types it introduces; nothing if there are none. -/
def writeTypes (mode : NullMode) (keyword : String) (types : List TypeRef) : String :=
  if types.isEmpty then ""
  else " " ++ keyword ++ " " ++ joinWith ", " (types.map (writeType mode))

def writeValue (sign : String) : Option String → String
  | some value => " " ++ sign ++ " " ++ value
  | none => ""

/-! ## Declarations -/

def writeMember (mode : NullMode) : Member → String
  | .constructor item =>
      "ctor " ++ writePreamble mode item.modifiers none ++
        writeOwnTypeParams mode item.typeParams ++ item.name ++
        writeParameters mode item.parameters ++ writeTypes mode "throws" item.throws ++ ";"
  | .method item =>
      "method " ++ writePreamble mode item.modifiers (some item.returnType) ++
        writeOwnTypeParams mode item.typeParams ++ writeOwnType mode item.returnType ++ " " ++
        item.name ++ writeParameters mode item.parameters ++
        writeTypes mode "throws" item.throws ++ writeValue "default" item.defaultValue ++ ";"
  | .field item =>
      (if item.isEnumConstant then "enum_constant " else "field ") ++
        writePreamble mode item.modifiers (some item.type) ++ writeOwnType mode item.type ++ " " ++
        item.name ++ writeValue "=" item.value ++ ";"

/-- The word before the interfaces of a kind of class. -/
def interfacesKeyword : ClassKind → String
  | .interfaceKind => "extends"
  | _ => "implements"

def writeClassHead (mode : NullMode) (cls : ClassDecl) : String :=
  writePreamble mode cls.modifiers none ++ cls.kind.keyword ++ " " ++ cls.name ++
    writeTypeParams mode cls.typeParams ++ writeTypes mode "extends" cls.superclass.toList ++
    writeTypes mode (interfacesKeyword cls.kind) cls.interfaces.toList ++ " \x7b"

def writeClass (mode : NullMode) (cls : ClassDecl) : String :=
  "  " ++ writeClassHead mode cls ++ "\n" ++
    String.join (cls.members.values.map fun found =>
      "    " ++ writeMember mode found.item ++ "\n") ++
    "  \x7d\n"

def writePackage (mode : NullMode) (package : Package) : String :=
  "package " ++ package.name ++ " \x7b\n" ++
    String.join (package.classes.values.map fun found => writeClass mode found.item) ++ "\x7d\n"

def writeHeader (mode : NullMode) : String :=
  "// Signature format: " ++ mode.version ++ "\n"

def write (api : Api) : String :=
  writeHeader api.nullMode ++
    String.join (api.packages.values.map fun found => writePackage api.nullMode found.item)

end ApiCompat.Signature
