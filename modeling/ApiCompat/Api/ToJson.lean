import ApiCompat.Api.Basic
import ApiCompat.Json.Basic

/-!
# APIs as JSON

Fields have a fixed order.  Empty lists and absent values are left out where
reading supplies them again.  Members form a list, since their keys follow
from what they are.
-/

set_option autoImplicit false

namespace ApiCompat

open Json

def Nullness.jsonWord : Nullness → String
  | .unspecified => "unspecified"
  | .nullable => "nullable"
  | .nonNull => "non_null"

def Visibility.jsonWord : Visibility → String
  | .privateScope => "private"
  | .packageScope => "package_private"
  | .internalScope => "internal"
  | .protectedScope => "protected"
  | .publicScope => "public"

def ClassKind.jsonWord : ClassKind → String
  | .classKind => "class"
  | .interfaceKind => "interface"
  | .enumKind => "enum"
  | .annotationKind => "annotation_type"

mutual

def TypeRef.toJson : TypeRef → Json
  | ⟨name, args, bound, dims, varargs, nullness⟩ =>
      object
        ([("name", string name)] ++ TypeRef.argsFields args ++ TypeRef.boundFields bound ++
          [("array_dims", natural dims), ("varargs", bool varargs),
            ("nullability", string nullness.jsonWord)])
termination_by structural type => type

def TypeRef.argsFields : List TypeRef → List (String × Json)
  | [] => []
  | type :: rest => [("args", array (type.toJson :: TypeRef.toJsons rest))]
termination_by structural types => types

def TypeRef.toJsons : List TypeRef → List Json
  | [] => []
  | type :: rest => type.toJson :: TypeRef.toJsons rest
termination_by structural types => types

def TypeRef.boundFields : Bound TypeRef → List (String × Json)
  | .unbounded => []
  | .upper type =>
      [("bound", object [("kind", string "extends"), ("bound", type.toJson)])]
  | .lower type =>
      [("bound", object [("kind", string "super"), ("bound", type.toJson)])]
termination_by structural bound => bound

end

def Modifiers.toJson (modifiers : Modifiers) : Json :=
  object
    ([("visibility", string modifiers.visibility.jsonWord),
      ("is_static", bool modifiers.isStatic),
      ("is_final", bool modifiers.isFinal),
      ("is_abstract", bool modifiers.isAbstract),
      ("is_default", bool modifiers.isDefault),
      ("is_synchronized", bool modifiers.isSynchronized),
      ("is_native", bool modifiers.isNative),
      ("is_transient", bool modifiers.isTransient),
      ("is_volatile", bool modifiers.isVolatile),
      ("is_strictfp", bool modifiers.isStrictfp),
      ("is_sealed", bool modifiers.isSealed),
      ("is_deprecated", bool modifiers.isDeprecated)] ++
      fieldIfAny "annotations" string modifiers.annotations)

def TypeParam.toJson (param : TypeParam) : Json :=
  object ([("name", string param.name)] ++ fieldIfAny "bounds" TypeRef.toJson param.bounds)

def Parameter.toJson (parameter : Parameter) : Json :=
  object [("name", orNull string parameter.name), ("type", parameter.type.toJson)]

def Constructor.jsonFields (item : Constructor) (line : Nat) : List (String × Json) :=
  [("name", string item.name), ("modifiers", item.modifiers.toJson)] ++
    fieldIfAny "type_params" TypeParam.toJson item.typeParams ++
    [("parameters", array (item.parameters.map Parameter.toJson))] ++
    fieldIfAny "throws" TypeRef.toJson item.throws ++ [("line", natural line)]

def Method.jsonFields (item : Method) (line : Nat) : List (String × Json) :=
  [("name", string item.name), ("modifiers", item.modifiers.toJson)] ++
    fieldIfAny "type_params" TypeParam.toJson item.typeParams ++
    [("return_type", item.returnType.toJson),
      ("parameters", array (item.parameters.map Parameter.toJson))] ++
    fieldIfAny "throws" TypeRef.toJson item.throws ++
    fieldIfSome "default_value" string item.defaultValue ++ [("line", natural line)]

def Field.jsonFields (item : Field) (line : Nat) : List (String × Json) :=
  [("name", string item.name), ("modifiers", item.modifiers.toJson),
    ("type", item.type.toJson)] ++ fieldIfSome "value" string item.value ++
    [("enum_constant", bool item.isEnumConstant), ("line", natural line)]

def Member.toJson (member : Located Member) : Json :=
  match member.item with
  | .constructor item =>
      object (("member", string "constructor") :: item.jsonFields member.line)
  | .method item => object (("member", string "method") :: item.jsonFields member.line)
  | .field item => object (("member", string "field") :: item.jsonFields member.line)

def ClassDecl.toJson (cls : Located ClassDecl) : Json :=
  object
    ([("name", string cls.item.name), ("qualified_name", string cls.item.qualifiedName),
      ("kind", string cls.item.kind.jsonWord), ("modifiers", cls.item.modifiers.toJson)] ++
      fieldIfAny "type_params" TypeParam.toJson cls.item.typeParams ++
      fieldIfSome "superclass" TypeRef.toJson cls.item.superclass ++
      [("interfaces", array (cls.item.interfaces.toList.map TypeRef.toJson)),
        ("members", array (cls.item.members.values.map Member.toJson)),
        ("line", natural cls.line)])

def Package.toJson (package : Located Package) : Json :=
  object
    [("name", string package.item.name),
      ("classes", object (package.item.classes.entries.map fun entry =>
        (entry.1, ClassDecl.toJson entry.2))),
      ("line", natural package.line)]

def Api.toJson (api : Api) : Json :=
  object
    [("source", string api.source), ("null_mode", string api.nullMode.name),
      ("packages", object (api.packages.entries.map fun entry =>
        (entry.1, Package.toJson entry.2)))]

end ApiCompat
