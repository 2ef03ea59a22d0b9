import ApiCompat.Proofs.Grammar.Declare

/-!
# Types and their marks

An occurrence is a type where it stands, with the nullness that is stated
apart from it.  Only a named type without any mark takes its nullness from the
null mode, so trees in which every named type is marked mean the same under
every mode.
-/

set_option autoImplicit false

namespace ApiCompat.Grammar

/-- A type in a text; `declared` is the nullness stated among the modifiers in front of it. -/
structure Occurrence where
  declared : Option Nullness
  type : TypeTree

namespace Occurrence

def typeIn (mode : NullMode) (occurrence : Occurrence) : TypeRef :=
  occurrence.type.typeIn mode occurrence.declared

def marks (occurrence : Occurrence) : List Nullness := occurrence.type.marks occurrence.declared

def IsNamed (occurrence : Occurrence) : Prop :=
  match occurrence.type with
  | .named _ _ _ _ _ => True
  | .wildcard _ _ _ => False

/-- A named type has a mark. -/
def Marked (occurrence : Occurrence) : Prop := occurrence.IsNamed → occurrence.marks ≠ []

/-- Without a mark the mode decides on a named type. -/
theorem nullness_unmarked {occurrence : Occurrence} (named : occurrence.IsNamed)
    (unmarked : occurrence.marks = []) (mode : NullMode) :
    (occurrence.typeIn mode).nullness = mode.bare := by
  obtain ⟨declared, type⟩ := occurrence
  cases type with
  | named annotations name args inner ending =>
      have none : outerMarks declared annotations inner ending = [] := unmarked
      simp [typeIn, TypeTree.typeIn, none]
  | wildcard annotations bound ending => exact absurd named id

/-- The nullness of other types does not depend on the mode. -/
theorem nullness_marked {occurrence : Occurrence} (marked : occurrence.Marked)
    (mode mode' : NullMode) :
    (occurrence.typeIn mode).nullness = (occurrence.typeIn mode').nullness := by
  obtain ⟨declared, type⟩ := occurrence
  cases type with
  | named annotations name args inner ending =>
      have some : outerMarks declared annotations inner ending ≠ [] := marked trivial
      simp only [typeIn, TypeTree.typeIn]
      cases shape : outerMarks declared annotations inner ending with
      | nil => exact absurd shape some
      | cons mark later => rfl
  | wildcard annotations bound ending => rfl

end Occurrence

/-! ## The types of a text -/

mutual

/-- The type and those inside it. -/
def TypeTree.occurrences (declared : Option Nullness) : TypeTree → List Occurrence
  | .named annotations name args inner ending =>
      ⟨declared, .named annotations name args inner ending⟩ :: TypeTree.argOccurrences args
  | .wildcard annotations bound ending =>
      ⟨declared, .wildcard annotations bound ending⟩ :: TypeTree.boundOccurrences bound
termination_by structural type => type

def TypeTree.argOccurrences : List TypeTree → List Occurrence
  | [] => []
  | type :: rest => TypeTree.occurrences none type ++ TypeTree.argOccurrences rest
termination_by structural types => types

def TypeTree.boundOccurrences : Bound TypeTree → List Occurrence
  | .unbounded => []
  | .upper type => TypeTree.occurrences none type
  | .lower type => TypeTree.occurrences none type
termination_by structural bound => bound

end

def plainOccurrences (types : List TypeTree) : List Occurrence :=
  types.flatMap (TypeTree.occurrences none)

def paramOccurrences (params : List TypeParamTree) : List Occurrence :=
  params.flatMap fun param => plainOccurrences param.bounds

def parameterOccurrences (parameters : List ParameterTree) : List Occurrence :=
  plainOccurrences (parameters.map ParameterTree.type)

def MemberTree.occurrences : MemberTree → List Occurrence
  | .constructor item =>
      paramOccurrences item.typeParams ++ (parameterOccurrences item.parameters ++
        plainOccurrences item.throws)
  | .method item =>
      paramOccurrences item.typeParams ++
        (item.returnType.occurrences (frontNullness item.front) ++
          (parameterOccurrences item.parameters ++ plainOccurrences item.throws))
  | .field item => item.type.occurrences (frontNullness item.front)

def ClassTree.occurrences (cls : ClassTree) : List Occurrence :=
  paramOccurrences cls.typeParams ++ (plainOccurrences cls.supertypes.superclass.toList ++
    (plainOccurrences cls.supertypes.interfaces ++
      cls.members.flatMap fun found => found.item.occurrences))

def fileOccurrences (blocks : List (Located PackageTree)) : List Occurrence :=
  blocks.flatMap fun block => block.item.classes.flatMap fun cls => cls.item.occurrences

/-! ## Marked trees -/

def AllMarked (occurrences : List Occurrence) : Prop :=
  ∀ occurrence ∈ occurrences, occurrence.Marked

theorem allMarked_append {first second : List Occurrence} :
    AllMarked (first ++ second) ↔ AllMarked first ∧ AllMarked second :=
  List.forall_mem_append

theorem allMarked_flatMap {α : Type} {items : List α} {occurrences : α → List Occurrence} :
    AllMarked (items.flatMap occurrences) ↔ ∀ item ∈ items, AllMarked (occurrences item) := by
  simp only [AllMarked, List.mem_flatMap, forall_exists_index, and_imp]
  exact ⟨fun all item member occurrence stored => all occurrence item member stored,
    fun all occurrence item member stored => all item member occurrence stored⟩

variable (mode mode' : NullMode)

mutual

theorem TypeTree.typeIn_marked (declared : Option Nullness) : (type : TypeTree) →
    AllMarked (type.occurrences declared) → type.typeIn mode declared = type.typeIn mode' declared
  | .named annotations name args inner ending, marked => by
      have own := marked _ List.mem_cons_self
      have nullness := Occurrence.nullness_marked own mode mode'
      have inArgs := TypeTree.typesIn_marked args fun occurrence member =>
        marked occurrence (List.mem_cons_of_mem _ member)
      simp only [Occurrence.typeIn, TypeTree.typeIn] at nullness
      simp only [TypeTree.typeIn, inArgs, nullness]
  | .wildcard annotations bound ending, marked => by
      have inBound := TypeTree.boundIn_marked bound fun occurrence member =>
        marked occurrence (List.mem_cons_of_mem _ member)
      simp only [TypeTree.typeIn, inBound]
termination_by structural type => type

theorem TypeTree.typesIn_marked : (types : List TypeTree) →
    AllMarked (TypeTree.argOccurrences types) →
      TypeTree.typesIn mode types = TypeTree.typesIn mode' types
  | [], _ => rfl
  | type :: rest, marked => by
      obtain ⟨inFirst, inRest⟩ := allMarked_append.mp marked
      have first := TypeTree.typeIn_marked none type inFirst
      have later := TypeTree.typesIn_marked rest inRest
      simp only [TypeTree.typesIn, first, later]
termination_by structural types => types

theorem TypeTree.boundIn_marked : (bound : Bound TypeTree) →
    AllMarked (TypeTree.boundOccurrences bound) →
      TypeTree.boundIn mode bound = TypeTree.boundIn mode' bound
  | .unbounded, _ => rfl
  | .upper type, marked => congrArg Bound.upper (TypeTree.typeIn_marked none type marked)
  | .lower type, marked => congrArg Bound.lower (TypeTree.typeIn_marked none type marked)
termination_by structural bound => bound

end

theorem plainIn_marked {types : List TypeTree} (marked : AllMarked (plainOccurrences types)) :
    types.map (TypeTree.plainIn mode) = types.map (TypeTree.plainIn mode') :=
  List.map_congr_left fun type member =>
    TypeTree.typeIn_marked mode mode' none type (allMarked_flatMap.mp marked type member)

theorem paramIn_marked {params : List TypeParamTree} (marked : AllMarked (paramOccurrences params)) :
    params.map (TypeParamTree.paramIn mode) = params.map (TypeParamTree.paramIn mode') := by
  refine List.map_congr_left fun param member => ?_
  have bounds := plainIn_marked mode mode' (allMarked_flatMap.mp marked param member)
  simp only [TypeParamTree.paramIn, bounds]

theorem parameterIn_marked {parameters : List ParameterTree}
    (marked : AllMarked (parameterOccurrences parameters)) :
    parameters.map (ParameterTree.parameterIn mode) =
      parameters.map (ParameterTree.parameterIn mode') := by
  refine List.map_congr_left fun parameter member => ?_
  have type : parameter.type.plainIn mode = parameter.type.plainIn mode' :=
    TypeTree.typeIn_marked mode mode' none parameter.type
      (allMarked_flatMap.mp marked parameter.type (List.mem_map_of_mem member))
  simp only [ParameterTree.parameterIn, type]

theorem MemberTree.memberIn_marked {member : MemberTree} (marked : AllMarked member.occurrences) :
    member.memberIn mode = member.memberIn mode' := by
  cases member with
  | constructor item =>
      obtain ⟨inParams, later⟩ := allMarked_append.mp marked
      obtain ⟨inParameters, inThrows⟩ := allMarked_append.mp later
      simp only [MemberTree.memberIn, ConstructorTree.constructorIn,
        paramIn_marked mode mode' inParams, parameterIn_marked mode mode' inParameters,
        plainIn_marked mode mode' inThrows]
  | method item =>
      obtain ⟨inParams, later⟩ := allMarked_append.mp marked
      obtain ⟨inReturn, later⟩ := allMarked_append.mp later
      obtain ⟨inParameters, inThrows⟩ := allMarked_append.mp later
      simp only [MemberTree.memberIn, MethodTree.methodIn, paramIn_marked mode mode' inParams,
        TypeTree.typeIn_marked mode mode' _ _ inReturn,
        parameterIn_marked mode mode' inParameters, plainIn_marked mode mode' inThrows]
  | field item =>
      simp only [MemberTree.memberIn, FieldTree.fieldIn,
        TypeTree.typeIn_marked mode mode' _ _ marked]

theorem ClassTree.classIn_marked {cls : ClassTree} (marked : AllMarked cls.occurrences)
    (package : String) : cls.classIn mode package = cls.classIn mode' package := by
  obtain ⟨inParams, later⟩ := allMarked_append.mp marked
  obtain ⟨inSuperclass, later⟩ := allMarked_append.mp later
  obtain ⟨inInterfaces, inMembers⟩ := allMarked_append.mp later
  have superclass : cls.supertypes.superclass.map (TypeTree.plainIn mode) =
      cls.supertypes.superclass.map (TypeTree.plainIn mode') :=
    Option.map_congr fun type member => TypeTree.typeIn_marked mode mode' none type
      (allMarked_flatMap.mp inSuperclass type (by simpa using member))
  have members : membersIn mode cls.members = membersIn mode' cls.members := by
    refine congrArg OrderedMap.ofList (List.map_congr_left fun found member => ?_)
    rw [MemberTree.memberIn_marked mode mode' (allMarked_flatMap.mp inMembers found member)]
  simp only [ClassTree.classIn, paramIn_marked mode mode' inParams, superclass,
    plainIn_marked mode mode' inInterfaces, members]

/-- If every named type of a text is marked, it declares the same under every null mode. -/
theorem packagesIn_marked {blocks : List (Located PackageTree)}
    (marked : AllMarked (fileOccurrences blocks)) :
    packagesIn mode blocks = packagesIn mode' blocks := by
  have same : blocks.map (blockIn mode) = blocks.map (blockIn mode') := by
    refine List.map_congr_left fun block member => ?_
    have inBlock := allMarked_flatMap.mp marked block member
    have classes : block.item.classes.map
        (Located.move id (ClassTree.classIn mode block.item.name.text)) =
        block.item.classes.map
          (Located.move id (ClassTree.classIn mode' block.item.name.text)) := by
      refine List.map_congr_left fun cls stored => ?_
      have marked := allMarked_flatMap.mp inBlock cls stored
      simp only [Located.move, ClassTree.classIn_marked mode mode' marked]
    simp only [blockIn, classes]
  rw [packagesIn, packagesIn, same]

end ApiCompat.Grammar
