import ApiCompat.Compare.Api
import ApiCompat.Proofs.TypeRef.Shape

/-!
# When a comparison is silent

Each rule of the comparison gives no finding exactly when a condition on what
it compares holds.  `ConstructorCompatible`, `MethodCompatible`,
`FieldCompatible` and `DeclarationCompatible` gather the conditions for one
declaration.
-/

set_option autoImplicit false

namespace ApiCompat.Compare

/-! ## Single rules -/

@[simp] theorem Spot.findingIf_eq_nil (spot : Spot) (condition : Bool) (issue : Issue)
    (message : String) : spot.findingIf condition issue message = [] ↔ condition = false := by
  cases condition <;> simp [Spot.findingIf]

theorem Spot.mem_findingIf (spot : Spot) (condition : Bool) (issue : Issue) (message : String)
    (finding : Finding) :
    finding ∈ spot.findingIf condition issue message ↔
      condition = true ∧ finding = spot.finding issue message := by
  cases condition <;> simp [Spot.findingIf]

theorem scopeFindings_eq_nil (spot : Spot) (what : String) (was now : Modifiers) :
    scopeFindings spot what was now = [] ↔ was.visibility.rank ≤ now.visibility.rank := by
  simp [scopeFindings]

theorem staticFindings_eq_nil (spot : Spot) (what : String) (was now : Modifiers) :
    staticFindings spot what was now = [] ↔ was.isStatic = now.isStatic := by
  simp [staticFindings]

theorem throwsFindings_eq_nil (spot : Spot) (what : String) (was now : List TypeRef) :
    throwsFindings spot what was now = [] ↔
      ∀ thrown ∈ now, thrown.erasure ∈ was.map TypeRef.erasure := by
  simp [throwsFindings, List.flatMap_eq_nil_iff]

theorem nullnessFindings_eq_nil (spot : Spot) (subject position : String)
    (change : Option Regression) :
    nullnessFindings spot subject position change = [] ↔ change = none := by
  cases change <;> simp [nullnessFindings]

theorem parameterFindings_eq_nil (spot : Spot) (owner : String) (was now : List Parameter) :
    parameterFindings spot owner was now = [] ↔
      ∀ pair ∈ was.zip now,
        regression? pair.1.type.nullness pair.2.type.nullness .parameter = none := by
  simp only [parameterFindings, List.flatMap_eq_nil_iff, nullnessFindings_eq_nil]
  constructor
  · intro silent pair member
    obtain ⟨index, found⟩ := List.mem_iff_getElem?.mp member
    exact silent (pair, index) (List.mem_zipIdx_iff_getElem?.mpr found)
  · intro silent indexed member
    exact silent indexed.1 (List.mem_iff_getElem?.mpr ⟨_, List.mem_zipIdx_iff_getElem?.mp member⟩)

theorem valueFindings_eq_nil (spot : Spot) (was now : Option String) :
    valueFindings spot was now = [] ↔
      ∀ before after, was = some before → now = some after → before = after := by
  cases was <;> cases now <;> simp [valueFindings]

theorem superclassFindings_eq_nil (spot : Spot) (was now : ClassDecl) :
    superclassFindings spot was now = [] ↔ superclassName was = superclassName now := by
  simp [superclassFindings]

theorem interfaceFindings_eq_nil (spot : Spot) (was now : ClassDecl) :
    interfaceFindings spot was now = [] ↔
      ∀ interface ∈ was.interfaceNames, interface ∈ now.interfaceNames := by
  simp [interfaceFindings, List.flatMap_eq_nil_iff]

/-! ## Declarations -/

/-- The parameters line up without a regression of nullness. -/
def ParametersCompatible (was now : List Parameter) : Prop :=
  ∀ pair ∈ was.zip now, regression? pair.1.type.nullness pair.2.type.nullness .parameter = none

/-- Every thrown type was thrown before, by its erasure. -/
def ThrowsCompatible (was now : List TypeRef) : Prop :=
  ∀ thrown ∈ now, thrown.erasure ∈ was.map TypeRef.erasure

/-- A constructor that changed compatibly. -/
structure ConstructorCompatible (was now : Constructor) : Prop where
  scope : was.modifiers.visibility.rank ≤ now.modifiers.visibility.rank
  throws : ThrowsCompatible was.throws now.throws
  parameters : ParametersCompatible was.parameters now.parameters

/-- A method that changed compatibly; `cls` is the class of the current version. -/
structure MethodCompatible (cls : ClassDecl) (was now : Method) : Prop where
  scope : was.modifiers.visibility.rank ≤ now.modifiers.visibility.rank
  static : was.modifiers.isStatic = now.modifiers.isStatic
  final : was.modifiers.isFinal = false → now.modifiers.isFinal = true →
    cls.modifiers.isFinal = true
  abstract : was.modifiers.isAbstract = false → now.modifiers.isAbstract = false
  returnType : was.returnType.sameShape now.returnType = true
  throws : ThrowsCompatible was.throws now.throws
  result : now.returnType.isVoid = false →
    regression? was.returnType.nullness now.returnType.nullness .result = none
  parameters : ParametersCompatible was.parameters now.parameters

structure FieldCompatible (was now : Field) : Prop where
  scope : was.modifiers.visibility.rank ≤ now.modifiers.visibility.rank
  static : was.modifiers.isStatic = now.modifiers.isStatic
  final : was.modifiers.isFinal = false → now.modifiers.isFinal = false
  type : was.type.sameShape now.type = true
  value : ∀ before after, was.value = some before → now.value = some after → before = after
  nullness : regression? was.type.nullness now.type.nullness .result = none

structure DeclarationCompatible (was now : ClassDecl) : Prop where
  kind : was.kind = now.kind
  scope : was.modifiers.visibility.rank ≤ now.modifiers.visibility.rank
  static : was.modifiers.isStatic = now.modifiers.isStatic
  final : was.modifiers.isFinal = false → now.modifiers.isFinal = false
  abstract : now.kind = .classKind → was.modifiers.isAbstract = false →
    now.modifiers.isAbstract = false
  superclass : now.kind = .classKind → superclassName was = superclassName now
  interfaces : ∀ interface ∈ was.interfaceNames, interface ∈ now.interfaceNames

theorem constructorFindings_eq_nil (file : String) (line : Nat) (cls : ClassDecl)
    (was now : Constructor) :
    constructorFindings file line cls was now = [] ↔ ConstructorCompatible was now := by
  simp only [constructorFindings, List.append_eq_nil_iff, scopeFindings_eq_nil,
    throwsFindings_eq_nil, parameterFindings_eq_nil]
  constructor
  · rintro ⟨⟨scope, throws⟩, parameters⟩
    exact ⟨scope, throws, parameters⟩
  · rintro ⟨scope, throws, parameters⟩
    exact ⟨⟨scope, throws⟩, parameters⟩

theorem methodFindings_eq_nil (file : String) (line : Nat) (cls : ClassDecl)
    (was now : Method) :
    methodFindings file line cls was now = [] ↔ MethodCompatible cls was now := by
  have result : (if now.returnType.isVoid = true then ([] : List Finding)
      else nullnessFindings
        { file, line, target := cls.qualifiedName ++ "." ++ now.signature }
        ("method " ++ (cls.qualifiedName ++ "." ++ now.name)) "method return"
        (regression? was.returnType.nullness now.returnType.nullness .result)) = [] ↔
      (now.returnType.isVoid = false →
        regression? was.returnType.nullness now.returnType.nullness .result = none) := by
    cases now.returnType.isVoid <;> simp [nullnessFindings_eq_nil]
  simp only [methodFindings, List.append_eq_nil_iff, scopeFindings_eq_nil,
    staticFindings_eq_nil, throwsFindings_eq_nil, parameterFindings_eq_nil,
    Spot.findingIf_eq_nil, result]
  constructor
  · rintro ⟨⟨⟨⟨⟨⟨⟨scope, static⟩, final⟩, abstract⟩, type⟩, throws⟩, result⟩, parameters⟩
    refine ⟨scope, static, ?_, ?_, by simpa using type, throws, result, parameters⟩
    · intro before after
      simpa [before, after] using final
    · intro before
      simpa [before] using abstract
  · rintro ⟨scope, static, final, abstract, type, throws, result, parameters⟩
    refine ⟨⟨⟨⟨⟨⟨⟨scope, static⟩, ?_⟩, ?_⟩, by simp [type]⟩, throws⟩, result⟩, parameters⟩
    · cases before : was.modifiers.isFinal <;> cases after : now.modifiers.isFinal <;>
        simp [before, after, final]
    · cases before : was.modifiers.isAbstract <;> simp [before, abstract]

theorem fieldFindings_eq_nil (file : String) (line : Nat) (cls : ClassDecl) (was now : Field) :
    fieldFindings file line cls was now = [] ↔ FieldCompatible was now := by
  simp only [fieldFindings, List.append_eq_nil_iff, scopeFindings_eq_nil,
    staticFindings_eq_nil, valueFindings_eq_nil, nullnessFindings_eq_nil, Spot.findingIf_eq_nil]
  constructor
  · rintro ⟨⟨⟨⟨⟨scope, static⟩, final⟩, type⟩, value⟩, nullness⟩
    refine ⟨scope, static, ?_, by simpa using type, value, nullness⟩
    intro before
    simpa [before] using final
  · rintro ⟨scope, static, final, type, value, nullness⟩
    refine ⟨⟨⟨⟨⟨scope, static⟩, ?_⟩, by simp [type]⟩, value⟩, nullness⟩
    cases before : was.modifiers.isFinal <;> simp [before, final]

theorem declarationFindings_eq_nil (spot : Spot) (was now : ClassDecl) :
    declarationFindings spot was now = [] ↔ DeclarationCompatible was now := by
  by_cases kind : was.kind = now.kind
  · have superclass : (if (now.kind == .classKind) = true then superclassFindings spot was now
        else []) = [] ↔
        (now.kind = .classKind → superclassName was = superclassName now) := by
      by_cases isClass : now.kind = .classKind <;> simp [isClass, superclassFindings_eq_nil]
    simp only [declarationFindings, if_pos kind, shapeFindings, List.append_eq_nil_iff,
      scopeFindings_eq_nil, staticFindings_eq_nil, interfaceFindings_eq_nil,
      Spot.findingIf_eq_nil, superclass]
    constructor
    · rintro ⟨⟨⟨⟨⟨scope, static⟩, final⟩, abstract⟩, parent⟩, interfaces⟩
      refine ⟨kind, scope, static, ?_, ?_, parent, interfaces⟩
      · intro before
        simpa [before] using final
      · intro isClass before
        simpa [isClass, before] using abstract
    · rintro ⟨_, scope, static, final, abstract, parent, interfaces⟩
      refine ⟨⟨⟨⟨⟨scope, static⟩, ?_⟩, ?_⟩, parent⟩, interfaces⟩
      · cases before : was.modifiers.isFinal <;> simp [before, final]
      · by_cases isClass : now.kind = .classKind <;>
          cases before : was.modifiers.isAbstract <;> simp [isClass, before, abstract]
  · simp only [declarationFindings, if_neg kind, List.cons_ne_nil, false_iff]
    intro compatible
    exact kind compatible.kind

end ApiCompat.Compare
