import ApiCompat.Api.OfJson
import ApiCompat.Proofs.Api.Unplaced
import ApiCompat.Proofs.Compare.Matching

/-!
# What a comparison looks at

Of an API a comparison observes only a part: names, keys, kinds, visibilities
and four flags, the shapes and own nullness of the types of members, erased
supertypes and exceptions, and constant values.  `Api.observed` keeps that
part and resets the rest, and two APIs with the same observed part are
compared alike (`compare_observed`).  Names of parameters and what tells enum
constants from fields show in the wording of messages and nowhere else.
-/

set_option autoImplicit false

namespace ApiCompat

/-! ## The observed part -/

/-- The type of a member: its nullness is kept, that of the types inside it is reset. -/
def TypeRef.observed (type : TypeRef) : TypeRef := { type.shape with nullness := type.nullness }

/-- A supertype or an exception: what its erasure shows. -/
def TypeRef.erased (type : TypeRef) : TypeRef :=
  { name := type.name, arrayDims := type.arrayDims, varargs := type.varargs }

def Modifiers.observed (modifiers : Modifiers) : Modifiers where
  visibility := modifiers.visibility
  isStatic := modifiers.isStatic
  isFinal := modifiers.isFinal
  isAbstract := modifiers.isAbstract

section Observed

-- Whether the wording of messages is observed.
variable (wording : Bool)

def Parameter.observed (parameter : Parameter) : Parameter where
  name := if wording then parameter.name else none
  type := parameter.type.observed

def Constructor.observed (item : Constructor) : Constructor where
  name := ""
  modifiers := item.modifiers.observed
  parameters := item.parameters.map (Parameter.observed wording)
  throws := item.throws.map TypeRef.erased

def Method.observed (item : Method) : Method where
  name := item.name
  modifiers := item.modifiers.observed
  returnType := item.returnType.observed
  parameters := item.parameters.map (Parameter.observed wording)
  throws := item.throws.map TypeRef.erased

def Field.observed (item : Field) : Field where
  name := item.name
  modifiers := item.modifiers.observed
  type := item.type.observed
  value := item.value
  isEnumConstant := wording && item.isEnumConstant

def Member.observed : Member → Member
  | constructor item => .constructor (item.observed wording)
  | method item => .method (item.observed wording)
  | field item => .field (item.observed wording)

def ClassDecl.observed (cls : ClassDecl) : ClassDecl where
  name := cls.name
  qualifiedName := cls.qualifiedName
  kind := cls.kind
  modifiers := cls.modifiers.observed
  superclass := cls.superclass.map TypeRef.erased
  interfaces := cls.interfaces
  members := cls.members.mapValues fun member =>
    { line := member.line, item := member.item.observed wording }

def Package.observed (package : Package) : Package where
  name := package.name
  classes := package.classes.mapValues fun cls =>
    { line := cls.line, item := cls.item.observed wording }

/-- The API with everything reset that a comparison does not look at. -/
def Api.observed (api : Api) : Api where
  source := api.source
  nullMode := api.nullMode
  packages := api.packages.mapValues fun package =>
    { line := package.line, item := package.item.observed wording }

/-- The finding, with its message only if wording is observed. -/
def Finding.observed (finding : Finding) : Finding :=
  if wording then finding else { finding with message := "" }

def Report.observed (report : Report) : Report :=
  { report with findings := report.findings.map (Finding.observed wording) }

end Observed

/-! ## Types and keys -/

namespace TypeRef

@[simp] theorem erasure_observed (type : TypeRef) : type.observed.erasure = type.erasure := by
  cases type
  rfl

@[simp] theorem erasure_erased (type : TypeRef) : type.erased.erasure = type.erasure := rfl

@[simp] theorem nullness_observed (type : TypeRef) : type.observed.nullness = type.nullness := rfl

@[simp] theorem isVoid_observed (type : TypeRef) : type.observed.isVoid = type.isVoid := by
  cases type
  rfl

theorem shape_observed (type : TypeRef) : type.observed.shape = type.shape := by
  rw [← shape_shape type]
  cases type
  rfl

@[simp] theorem display_observed (type : TypeRef) : type.observed.display = type.display := by
  rw [← display_shape, shape_observed, display_shape]

@[simp] theorem sameShape_observed (type other : TypeRef) :
    type.observed.sameShape other.observed = type.sameShape other := by
  rw [Bool.eq_iff_iff, sameShape_iff, sameShape_iff, shape_observed, shape_observed]

end TypeRef

namespace Modifiers

@[simp] theorem isFinal_observed (modifiers : Modifiers) :
    modifiers.observed.isFinal = modifiers.isFinal := rfl

@[simp] theorem isAbstract_observed (modifiers : Modifiers) :
    modifiers.observed.isAbstract = modifiers.isAbstract := rfl

end Modifiers

section Keys

variable (wording : Bool)

@[simp] theorem erasures_observed (parameters : List Parameter) :
    erasures (parameters.map (Parameter.observed wording)) = erasures parameters := by
  simp [erasures, Parameter.observed]

@[simp] theorem callSignature_observed (name : String) (parameters : List Parameter) :
    callSignature name (parameters.map (Parameter.observed wording)) =
      callSignature name parameters := by
  simp [callSignature, Parameter.observed, Function.comp_def]

theorem Member.key_observed (member : Member) : (member.observed wording).key = member.key := by
  cases member with
  | constructor item => simp [observed, key, Constructor.observed]
  | method item => simp [observed, key, Method.observed]
  | field item => rfl

end Keys

namespace Compare

/-! ## Rules -/

section Rules

variable (wording : Bool) (spot : Spot)

@[simp] theorem scope_observed (what : String) (was now : Modifiers) :
    scopeFindings spot what was.observed now.observed = scopeFindings spot what was now := rfl

@[simp] theorem static_observed (what : String) (was now : Modifiers) :
    staticFindings spot what was.observed now.observed = staticFindings spot what was now := rfl

@[simp] theorem throws_observed (what : String) (was now : List TypeRef) :
    throwsFindings spot what (was.map TypeRef.erased) (now.map TypeRef.erased) =
      throwsFindings spot what was now := by
  have before : (was.map TypeRef.erased).map TypeRef.erasure = was.map TypeRef.erasure := by
    rw [List.map_map]
    rfl
  simp only [throwsFindings, before, List.flatMap_map, TypeRef.erasure_erased]

/-- The subject of a message is part of its wording. -/
theorem nullness_observed {subject subject' : String} (position : String)
    (change : Option Regression) (same : wording = true → subject = subject') :
    (nullnessFindings spot subject position change).map (Finding.observed wording) =
      (nullnessFindings spot subject' position change).map (Finding.observed wording) := by
  cases wording with
  | true => rw [same rfl]
  | false => cases change <;> rfl

theorem parameters_observed (owner : String) (was now : List Parameter) :
    (parameterFindings spot owner (was.map (Parameter.observed wording))
        (now.map (Parameter.observed wording))).map (Finding.observed wording) =
      (parameterFindings spot owner was now).map (Finding.observed wording) := by
  simp only [parameterFindings, List.zip_map, List.zipIdx_map, List.flatMap_map, List.map_flatMap]
  refine List.flatMap_congr fun entry _ => ?_
  obtain ⟨⟨before, after⟩, index⟩ := entry
  refine nullness_observed wording spot _ _ fun named => ?_
  simp [Parameter.displayName, Parameter.observed, named]

theorem superclassName_observed (cls : ClassDecl) :
    superclassName (cls.observed wording) = superclassName cls := by
  simp [superclassName, ClassDecl.observed, Function.comp_def]

theorem declaration_observed (was now : ClassDecl) :
    declarationFindings spot (was.observed wording) (now.observed wording) =
      declarationFindings spot was now := by
  have parents : superclassFindings spot (was.observed wording) (now.observed wording) =
      superclassFindings spot was now := by
    simp only [superclassFindings, superclassName_observed]
  simp only [declarationFindings, shapeFindings, parents]
  rfl

end Rules

/-! ## Members -/

section Members

variable (wording : Bool) (file : String) (cls : ClassDecl)

theorem constructorTarget_observed (item : Constructor) :
    constructorTarget (cls.observed wording) (item.observed wording) = constructorTarget cls item :=
  callSignature_observed wording cls.qualifiedName item.parameters

theorem constructor_observed (line : Nat) (was now : Constructor) :
    (constructorFindings file line (cls.observed wording) (was.observed wording)
        (now.observed wording)).map (Finding.observed wording) =
      (constructorFindings file line cls was now).map (Finding.observed wording) := by
  simp only [constructorFindings, constructorTarget_observed, List.map_append]
  simp only [Constructor.observed, ClassDecl.observed, scope_observed, throws_observed,
    parameters_observed]

theorem method_observed (line : Nat) (was now : Method) :
    (methodFindings file line (cls.observed wording) (was.observed wording)
        (now.observed wording)).map (Finding.observed wording) =
      (methodFindings file line cls was now).map (Finding.observed wording) := by
  have signature : (now.observed wording).signature = now.signature :=
    callSignature_observed wording now.name now.parameters
  simp only [methodFindings, signature, List.map_append]
  simp [Method.observed, ClassDecl.observed, parameters_observed]

theorem field_observed (line : Nat) (was now : Field) :
    fieldFindings file line (cls.observed wording) (was.observed wording) (now.observed wording) =
      fieldFindings file line cls was now := by
  simp [fieldFindings, Field.observed, ClassDecl.observed]

theorem member_observed (was now : Located Member) :
    (memberFindings file (cls.observed wording) ⟨was.line, was.item.observed wording⟩
        ⟨now.line, now.item.observed wording⟩).map (Finding.observed wording) =
      (memberFindings file cls was now).map (Finding.observed wording) := by
  obtain ⟨_, before⟩ := was
  obtain ⟨line, after⟩ := now
  cases before <;> cases after <;> try rfl
  case constructor.constructor before after =>
    exact constructor_observed wording file cls line before after
  case method.method before after => exact method_observed wording file cls line before after
  case field.field before after =>
    exact congrArg (List.map (Finding.observed wording))
      (field_observed wording file cls line before after)

theorem removedMember_observed (was : Located Member) :
    (removedMember file (cls.observed wording) ⟨was.line, was.item.observed wording⟩).observed
        wording =
      (removedMember file cls was).observed wording := by
  obtain ⟨_, member⟩ := was
  cases member with
  | constructor item =>
      simp only [removedMember, Member.observed, constructorTarget_observed]
      rfl
  | method item =>
      simp [removedMember, Member.observed, Method.observed, Method.signature, ClassDecl.observed]
  | field item => cases wording <;> rfl

end Members

/-! ## Classes and packages -/

section Outcomes

variable (wording : Bool) (sources : Sources)

theorem memberOutcome_observed (was now : ClassDecl) (member : Located Member) :
    (memberOutcome sources (was.observed wording) (now.observed wording)
        ⟨member.line, member.item.observed wording⟩).map (Finding.observed wording) =
      (memberOutcome sources was now member).map (Finding.observed wording) := by
  simp only [memberOutcome, Member.key_observed, ClassDecl.observed, OrderedMap.get?_mapValues]
  cases now.members.get? member.item.key with
  | none =>
      exact congrArg (fun finding => [finding])
        (removedMember_observed wording sources.previous was member)
  | some found => exact member_observed wording sources.current now member found

theorem classFindings_observed (was now : Located ClassDecl) :
    (classFindings sources ⟨was.line, was.item.observed wording⟩
        ⟨now.line, now.item.observed wording⟩).map (Finding.observed wording) =
      (classFindings sources was now).map (Finding.observed wording) := by
  simp only [classFindings, declaration_observed, List.map_append, List.map_flatMap]
  refine congrArg _ ?_
  simp only [ClassDecl.observed, OrderedMap.values_mapValues, List.flatMap_map]
  exact List.flatMap_congr fun member _ =>
    memberOutcome_observed wording sources was.item now.item member

theorem classOutcome_observed (now : Package) (was : Located ClassDecl) :
    (classOutcome sources (now.observed wording) ⟨was.line, was.item.observed wording⟩).map
        (Finding.observed wording) =
      (classOutcome sources now was).map (Finding.observed wording) := by
  simp only [classOutcome, Package.observed, ClassDecl.observed, OrderedMap.get?_mapValues]
  cases now.classes.get? was.item.name with
  | none => rfl
  | some found => exact classFindings_observed wording sources was found

theorem packageOutcome_observed (current : Api) (was : Located Package) :
    (packageOutcome sources (current.observed wording) ⟨was.line, was.item.observed wording⟩).map
        (Finding.observed wording) =
      (packageOutcome sources current was).map (Finding.observed wording) := by
  simp only [packageOutcome, Api.observed, OrderedMap.get?_mapValues]
  have name : (was.item.observed wording).name = was.item.name := rfl
  have empty : (was.item.observed wording).classes.isEmpty = was.item.classes.isEmpty := by
    simp [Package.observed, OrderedMap.isEmpty, OrderedMap.mapValues]
  rw [name, empty]
  cases current.packages.get? was.item.name with
  | none => rfl
  | some found =>
      simp only [Option.map_some, Package.observed, OrderedMap.values_mapValues, List.flatMap_map,
        List.map_flatMap]
      exact List.flatMap_congr fun cls _ => classOutcome_observed wording sources found.item cls

end Outcomes

theorem findings_observed (wording : Bool) (previous current : Api) :
    (findings (previous.observed wording) (current.observed wording)).map
        (Finding.observed wording) =
      (findings previous current).map (Finding.observed wording) := by
  simp only [findings, List.map_flatMap]
  simp only [Api.observed, OrderedMap.values_mapValues, List.flatMap_map]
  exact List.flatMap_congr fun package _ =>
    packageOutcome_observed wording ⟨previous.source, current.source⟩ current package

/-! ## Reports -/

theorem counts_observed (wording : Bool) (severity : Severity) (found : List Finding) :
    (found.map (Finding.observed wording)).countP (fun finding => finding.severity == severity) =
      found.countP fun finding => finding.severity == severity := by
  rw [List.countP_map]
  refine List.countP_congr fun finding _ => ?_
  cases wording <;> rfl

theorem ofFindings_observed (wording : Bool) (previous current : String) (found : List Finding) :
    (Report.ofFindings previous current found).observed wording =
      Report.ofFindings previous current (found.map (Finding.observed wording)) := by
  simp only [Report.observed, Report.ofFindings, counts_observed]

/-- A comparison sees nothing but the observed parts. -/
theorem report_observed (wording : Bool) (previous current : Api) :
    ((previous.observed wording).compare (current.observed wording)).map
        (Report.observed wording) =
      (previous.compare current).map (Report.observed wording) := by
  by_cases modes : previous.nullMode = current.nullMode
  · have seen : (previous.observed wording).compare (current.observed wording) =
        .ok (Report.ofFindings previous.source current.source
          (findings (previous.observed wording) (current.observed wording))) := if_pos modes
    have plain : previous.compare current =
        .ok (Report.ofFindings previous.source current.source (findings previous current)) :=
      if_pos modes
    rw [seen, plain]
    simp only [Except.map, ofFindings_observed, findings_observed]
  · have seen : (previous.observed wording).compare (current.observed wording) =
        .error ⟨previous.nullMode, current.nullMode⟩ := if_neg modes
    have plain : previous.compare current = .error ⟨previous.nullMode, current.nullMode⟩ :=
      if_neg modes
    rw [seen, plain]

theorem report_of_observed {wording : Bool} {previous previous' current current' : Api}
    (old : previous.observed wording = previous'.observed wording)
    (new : current.observed wording = current'.observed wording) :
    (previous.compare current).map (Report.observed wording) =
      (previous'.compare current').map (Report.observed wording) := by
  rw [← report_observed, old, new, report_observed]

/-- APIs that agree in what is observed are compared alike, to the last word if they also agree in
the names of parameters and in which fields are enum constants, and else up to the messages. -/
theorem compare_observed (previous previous' current current' : Api) :
    (previous.observed true = previous'.observed true →
      current.observed true = current'.observed true →
      previous.compare current = previous'.compare current') ∧
    (previous.observed false = previous'.observed false →
      current.observed false = current'.observed false →
      (previous.compare current).map (Report.observed false) =
        (previous'.compare current').map (Report.observed false)) := by
  refine ⟨fun old new => ?_, report_of_observed⟩
  have whole : (Report.observed true) = id := by
    funext report
    have kept : Finding.observed true = id := rfl
    simp [Report.observed, kept]
  have same := report_of_observed old new
  rwa [whole, Except.map_id, id, id] at same

/-- The members of a class.  `edited` makes changes that are not observed, and `reworded` such as
show in messages only; the released members have a field more, and none throws `E`. -/
def editedMembers (released edited reworded : Bool) : List (Located Member) :=
  let constructor : Constructor := { name := if edited then "C" else "D" }
  let method : Method := {
    name := "f"
    modifiers := { isNative := edited }
    returnType := {
      name := "Map"
      args := [{ name := "?", bound := .upper {
        name := "K", nullness := if edited then .nullable else .nonNull } }]
      nullness := .nonNull }
    parameters := [{
      name := if reworded then some "key" else none
      type := { name := "K", nullness := if released then .nullable else .nonNull } }]
    throws := if released then []
      else [{ name := "E", nullness := if edited then .nullable else .nonNull }]
    defaultValue := if edited then some "1" else none }
  let field : Field := { name := "x", type := { name := "int" }, isEnumConstant := reworded }
  [{ line := 3, item := .constructor constructor }, { line := 4, item := .method method }] ++
    if released then [{ line := 5, item := .field field }] else []

/-- A class with these members, to whose declaration `edited` makes changes as well. -/
def editedSample (released edited reworded : Bool) : Api where
  source := if released then "old.txt" else "new.txt"
  nullMode := .nullAware
  packages := .ofList [("p", {
    line := 1
    item := {
      name := "p"
      classes := .ofList [("C", {
        line := 2
        item := {
          name := "C"
          qualifiedName := "p.C"
          kind := .classKind
          modifiers := { isSealed := edited, annotations := if edited then ["@A(1)"] else [] }
          typeParams := if edited then [{ name := "T" }] else []
          superclass := some { name := "B", args := if edited then [{ name := "T" }] else [] }
          members := Member.index (editedMembers released edited reworded) } })] } })]

theorem compare_observed_editedSample :
    (editedSample true false false).compare (editedSample false false false) =
        (editedSample true true false).compare (editedSample false true false) ∧
    ((editedSample true false false).compare (editedSample false false false)).map
        (Report.observed false) =
      ((editedSample true true true).compare (editedSample false true true)).map
        (Report.observed false) ∧
    (findings (editedSample true false false) (editedSample false false false)).map
        Finding.code = [21, 40, 10] := by
  refine ⟨(compare_observed _ _ _ _).1 rfl rfl, (compare_observed _ _ _ _).2 rfl rfl, ?_⟩
  decide +kernel

end Compare

end ApiCompat
