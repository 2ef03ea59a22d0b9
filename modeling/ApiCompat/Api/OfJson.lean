import ApiCompat.Api.ToJson
import ApiCompat.Json.Decode

/-!
# APIs from JSON

Whatever is left out for being empty may be missing; everything else has to be
there.  The keys of packages and classes are taken as they stand, the keys of
members follow from the members.  A member is held whole before it is decoded.
-/

set_option autoImplicit false

namespace ApiCompat

open Decoder

def Nullness.ofJsonWord? : String → Option Nullness
  | "unspecified" => some .unspecified
  | "nullable" => some .nullable
  | "non_null" => some .nonNull
  | _ => none

def Visibility.ofJsonWord? : String → Option Visibility
  | "private" => some .privateScope
  | "package_private" => some .packageScope
  | "internal" => some .internalScope
  | "protected" => some .protectedScope
  | "public" => some .publicScope
  | _ => none

def ClassKind.ofJsonWord? : String → Option ClassKind
  | "class" => some .classKind
  | "interface" => some .interfaceKind
  | "enum" => some .enumKind
  | "annotation_type" => some .annotationKind
  | _ => none

def Bound.ofJsonWord? : String → Option (TypeRef → Bound TypeRef)
  | "extends" => some .upper
  | "super" => some .lower
  | _ => none

def Bound.ofJson? (held : Bool) (type : Decoder TypeRef) : Decoder (Bound TypeRef) :=
  fun room json => do
    let record ← JsonRecord.ofJson? ["kind", "bound"] room json
    let kind ← record.required "kind" (word held Bound.ofJsonWord?)
    return kind (← record.required "bound" type)

/-- A type nested at most `depth` deep in itself; `held` says whether it is part of a value that
is held whole. -/
def TypeRef.decodeWithin (held : Bool) : Nat → Decoder TypeRef
  | 0 => fun _ _ => none
  | depth + 1 => fun room json => do
      let record ← JsonRecord.ofJson?
        ["name", "args", "bound", "array_dims", "varargs", "nullability"] room json
      let inner := TypeRef.decodeWithin held depth
      let name ← record.required "name" text
      let args ← record.withDefault "args" (list inner) []
      let bound ← record.withDefault "bound" (orNull (Bound.ofJson? held inner)) none
      let arrayDims ← record.withDefault "array_dims" count 0
      let varargs ← record.withDefault "varargs" truth false
      let nullness ←
        record.withDefault "nullability" (word held Nullness.ofJsonWord?) .unspecified
      return { name, args, bound := bound.getD .unbounded, arrayDims, varargs, nullness }

def TypeRef.ofJson? (held : Bool) : Decoder TypeRef := fun room json =>
  TypeRef.decodeWithin held room room json

def Modifiers.ofJson? (held : Bool) : Decoder Modifiers := fun room json => do
  let record ← JsonRecord.ofJson?
    ["visibility", "is_static", "is_final", "is_abstract", "is_default", "is_synchronized",
      "is_native", "is_transient", "is_volatile", "is_strictfp", "is_sealed", "is_deprecated",
      "annotations"] room json
  return {
    visibility := ← record.required "visibility" (word held Visibility.ofJsonWord?)
    isStatic := ← record.required "is_static" truth
    isFinal := ← record.required "is_final" truth
    isAbstract := ← record.required "is_abstract" truth
    isDefault := ← record.required "is_default" truth
    isSynchronized := ← record.required "is_synchronized" truth
    isNative := ← record.required "is_native" truth
    isTransient := ← record.required "is_transient" truth
    isVolatile := ← record.required "is_volatile" truth
    isStrictfp := ← record.required "is_strictfp" truth
    isSealed := ← record.required "is_sealed" truth
    isDeprecated := ← record.required "is_deprecated" truth
    annotations := ← record.withDefault "annotations" (list text) [] }

def TypeParam.ofJson? (held : Bool) : Decoder TypeParam := fun room json => do
  let record ← JsonRecord.ofJson? ["name", "bounds"] room json
  return {
    name := ← record.required "name" text
    bounds := ← record.withDefault "bounds" (list (TypeRef.ofJson? held)) [] }

def Parameter.ofJson? (held : Bool) : Decoder Parameter := fun room json => do
  let record ← JsonRecord.ofJson? ["name", "type"] room json
  return {
    name := ← record.optional "name" text
    type := ← record.required "type" (TypeRef.ofJson? held) }

def Constructor.ofJson? (held : Bool) : Decoder (Located Constructor) := fun room json => do
  let record ← JsonRecord.ofJson?
    ["name", "modifiers", "type_params", "parameters", "throws", "line"] room json
  let item : Constructor := {
    name := ← record.required "name" text
    modifiers := ← record.required "modifiers" (Modifiers.ofJson? held)
    typeParams := ← record.withDefault "type_params" (list (TypeParam.ofJson? held)) []
    parameters := ← record.required "parameters" (list (Parameter.ofJson? held))
    throws := ← record.withDefault "throws" (list (TypeRef.ofJson? held)) [] }
  return { line := ← record.required "line" count, item }

def Method.ofJson? (held : Bool) : Decoder (Located Method) := fun room json => do
  let record ← JsonRecord.ofJson?
    ["name", "modifiers", "type_params", "return_type", "parameters", "throws", "default_value",
      "line"] room json
  let item : Method := {
    name := ← record.required "name" text
    modifiers := ← record.required "modifiers" (Modifiers.ofJson? held)
    typeParams := ← record.withDefault "type_params" (list (TypeParam.ofJson? held)) []
    returnType := ← record.required "return_type" (TypeRef.ofJson? held)
    parameters := ← record.required "parameters" (list (Parameter.ofJson? held))
    throws := ← record.withDefault "throws" (list (TypeRef.ofJson? held)) []
    defaultValue := ← record.withDefault "default_value" (orNull text) none }
  return { line := ← record.required "line" count, item }

def Field.ofJson? (held : Bool) : Decoder (Located Field) := fun room json => do
  let record ← JsonRecord.ofJson?
    ["name", "modifiers", "type", "value", "enum_constant", "line"] room json
  let item : Field := {
    name := ← record.required "name" text
    modifiers := ← record.required "modifiers" (Modifiers.ofJson? held)
    type := ← record.required "type" (TypeRef.ofJson? held)
    value := ← record.withDefault "value" (orNull text) none
    isEnumConstant := ← record.withDefault "enum_constant" truth false }
  return { line := ← record.required "line" count, item }

def Member.ofJson? : Decoder (Located Member) := fun room json =>
  if !json.isStorable room then none
  else
    match json.untag? "member" with
    | some ("constructor", rest) =>
        (Constructor.ofJson? true room rest).map fun found =>
          { line := found.line, item := .constructor found.item }
    | some ("method", rest) =>
        (Method.ofJson? true room rest).map fun found =>
          { line := found.line, item := .method found.item }
    | some ("field", rest) =>
        (Field.ofJson? true room rest).map fun found =>
          { line := found.line, item := .field found.item }
    | _ => none

/-- The members of a list under their keys; a repeated key keeps its place and takes its last value. -/
def Member.index (members : List (Located Member)) : OrderedMap MemberKey (Located Member) :=
  OrderedMap.ofList (members.map fun member => (member.item.key, member))

def ClassDecl.ofJson? : Decoder (Located ClassDecl) := fun room json => do
  let record ← JsonRecord.ofJson?
    ["name", "qualified_name", "kind", "modifiers", "type_params", "superclass", "interfaces",
      "members", "line"] room json
  let item : ClassDecl := {
    name := ← record.required "name" text
    qualifiedName := ← record.required "qualified_name" text
    kind := ← record.required "kind" (word false ClassKind.ofJsonWord?)
    modifiers := ← record.required "modifiers" (Modifiers.ofJson? false)
    typeParams := ← record.withDefault "type_params" (list (TypeParam.ofJson? false)) []
    superclass := ← record.withDefault "superclass" (orNull (TypeRef.ofJson? false)) none
    interfaces := OrderedSet.ofList
      (← record.withDefault "interfaces" (list (TypeRef.ofJson? false)) [])
    members := Member.index (← record.required "members" (list Member.ofJson?)) }
  return { line := ← record.required "line" count, item }

def Package.ofJson? : Decoder (Located Package) := fun room json => do
  let record ← JsonRecord.ofJson? ["name", "classes", "line"] room json
  let item : Package := {
    name := ← record.required "name" text
    classes := OrderedMap.ofList (← record.required "classes" (entries ClassDecl.ofJson?)) }
  return { line := ← record.required "line" count, item }

def Api.decode? : Decoder Api := fun room json => do
  let record ← JsonRecord.ofJson? ["source", "null_mode", "packages"] room json
  return {
    source := ← record.required "source" text
    nullMode := ← record.required "null_mode" (word false NullMode.ofName?)
    packages := OrderedMap.ofList (← record.required "packages" (entries Package.ofJson?)) }

def Api.ofJson? (json : Json) : Option Api := Api.decode? nestingLimit json

end ApiCompat
