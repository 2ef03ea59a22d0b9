import ApiCompat.Proofs.Grammar.Declare
import ApiCompat.Proofs.TypeRef.Shape

/-!
# Descriptions without nullness

The shape of a description is what is left of it when every nullness in it is
reset.  Interfaces that become equal are one.  Trees have one shape under
every null mode.
-/

set_option autoImplicit false

namespace ApiCompat

def TypeParam.shape (param : TypeParam) : TypeParam :=
  { param with bounds := param.bounds.map TypeRef.shape }

def Parameter.shape (parameter : Parameter) : Parameter :=
  { parameter with type := parameter.type.shape }

def Constructor.shape (item : Constructor) : Constructor :=
  { item with
    typeParams := item.typeParams.map TypeParam.shape
    parameters := item.parameters.map Parameter.shape
    throws := item.throws.map TypeRef.shape }

def Method.shape (item : Method) : Method :=
  { item with
    typeParams := item.typeParams.map TypeParam.shape
    returnType := item.returnType.shape
    parameters := item.parameters.map Parameter.shape
    throws := item.throws.map TypeRef.shape }

def Field.shape (item : Field) : Field := { item with type := item.type.shape }

def Member.shape : Member → Member
  | .constructor item => .constructor item.shape
  | .method item => .method item.shape
  | .field item => .field item.shape

def ClassDecl.shape (cls : ClassDecl) : ClassDecl :=
  { cls with
    typeParams := cls.typeParams.map TypeParam.shape
    superclass := cls.superclass.map TypeRef.shape
    interfaces := .ofList (cls.interfaces.toList.map TypeRef.shape)
    members := cls.members.mapValues (Located.move id Member.shape) }

def Api.shape (api : Api) : Api :=
  { api with nullMode := .legacy, packages := changePackages id ClassDecl.shape api.packages }

theorem keepsNames_shape : KeepsNames ClassDecl.shape := ⟨fun _ => rfl, fun _ => rfl⟩

/-! ## Sets under a function -/

namespace OrderedSet

variable {α β : Type} [DecidableEq α] [DecidableEq β]

theorem mem_insert_self (set : OrderedSet α) (element : α) :
    element ∈ (set.insert element).toList := by
  unfold insert
  split
  · simp
  · next stored => exact not_not.mp stored

theorem mem_insertAll_of_mem {set : OrderedSet α} {element : α} (elements : List α)
    (stored : element ∈ set.toList) : element ∈ (set.insertAll elements).toList := by
  induction elements generalizing set with
  | nil => exact stored
  | cons first elements ih =>
      refine ih ?_
      unfold insert
      split
      · exact List.mem_append_left _ stored
      · exact stored

theorem mem_ofList {elements : List α} {element : α} (member : element ∈ elements) :
    element ∈ (ofList elements).toList := by
  obtain ⟨front, rest, rfl⟩ := List.append_of_mem member
  rw [ofList, insertAll, List.foldl_append, List.foldl_cons]
  exact mem_insertAll_of_mem rest (mem_insert_self _ element)

theorem insert_of_mem {set : OrderedSet α} {element : α} (stored : element ∈ set.toList) :
    set.insert element = set := dif_neg (not_not.mpr stored)

theorem ofList_concat (elements : List α) (element : α) :
    ofList (elements ++ [element]) = (ofList elements).insert element := by
  rw [ofList, insertAll, List.foldl_append]
  rfl

/-- Repeats may be dropped before a function is applied; new ones come to nothing. -/
theorem ofList_map_ofList (f : α → β) (elements : List α) :
    ofList ((ofList elements).toList.map f) = ofList (elements.map f) := by
  have step : ∀ (set : OrderedSet α) (element : α),
      ofList ((set.insert element).toList.map f) =
        (ofList (set.toList.map f)).insert (f element) := by
    intro set element
    by_cases stored : element ∈ set.toList
    · rw [insert_of_mem stored, insert_of_mem (mem_ofList (List.mem_map_of_mem stored))]
    · rw [toList_insert_of_not_mem stored, List.map_append]
      exact ofList_concat _ _
  have grown : ∀ set : OrderedSet α, ofList ((set.insertAll elements).toList.map f) =
      (ofList (set.toList.map f)).insertAll (elements.map f) := by
    induction elements with
    | nil => intro set; rfl
    | cons element elements ih =>
        intro set
        have later := ih (set.insert element)
        rw [step] at later
        exact later
  exact grown empty

end OrderedSet

/-! ## The shapes of trees -/

namespace Grammar

variable (mode mode' : NullMode)

mutual

theorem TypeTree.shape_typeIn (declared : Option Nullness) : (type : TypeTree) →
    (type.typeIn mode declared).shape = (type.typeIn mode' declared).shape
  | .named annotations name args inner ending => by
      have inArgs := TypeTree.shapes_typesIn args
      simp [TypeTree.typeIn, TypeRef.shape, TypeRef.shapeBound, inArgs]
  | .wildcard annotations bound ending => by
      have inBound := TypeTree.shape_boundIn bound
      simp [TypeTree.typeIn, TypeRef.shape, TypeRef.shapes, inBound]
termination_by structural type => type

theorem TypeTree.shapes_typesIn : (types : List TypeTree) →
    TypeRef.shapes (TypeTree.typesIn mode types) = TypeRef.shapes (TypeTree.typesIn mode' types)
  | [] => rfl
  | type :: rest => by
      have first := TypeTree.shape_typeIn none type
      have later := TypeTree.shapes_typesIn rest
      simp [TypeTree.typesIn, TypeRef.shapes, first, later]
termination_by structural types => types

theorem TypeTree.shape_boundIn : (bound : Bound TypeTree) →
    TypeRef.shapeBound (TypeTree.boundIn mode bound) =
      TypeRef.shapeBound (TypeTree.boundIn mode' bound)
  | .unbounded => rfl
  | .upper type => by
      have inner := TypeTree.shape_typeIn none type
      simp [TypeTree.boundIn, TypeRef.shapeBound, inner]
  | .lower type => by
      have inner := TypeTree.shape_typeIn none type
      simp [TypeTree.boundIn, TypeRef.shapeBound, inner]
termination_by structural bound => bound

end

theorem shape_plainTypes (types : List TypeTree) :
    (types.map (TypeTree.plainIn mode)).map TypeRef.shape =
      (types.map (TypeTree.plainIn mode')).map TypeRef.shape := by
  rw [List.map_map, List.map_map]
  exact List.map_congr_left fun type _ => TypeTree.shape_typeIn mode mode' none type

theorem shape_typeParams (params : List TypeParamTree) :
    (params.map (TypeParamTree.paramIn mode)).map TypeParam.shape =
      (params.map (TypeParamTree.paramIn mode')).map TypeParam.shape := by
  rw [List.map_map, List.map_map]
  refine List.map_congr_left fun param _ => ?_
  simp only [Function.comp_apply, TypeParamTree.paramIn, TypeParam.shape]
  rw [shape_plainTypes mode mode']

theorem shape_parameters (parameters : List ParameterTree) :
    (parameters.map (ParameterTree.parameterIn mode)).map Parameter.shape =
      (parameters.map (ParameterTree.parameterIn mode')).map Parameter.shape := by
  rw [List.map_map, List.map_map]
  refine List.map_congr_left fun parameter _ => ?_
  have type : (parameter.type.plainIn mode).shape = (parameter.type.plainIn mode').shape :=
    TypeTree.shape_typeIn mode mode' none parameter.type
  simp only [Function.comp_apply, ParameterTree.parameterIn, Parameter.shape, type]

theorem shape_memberIn (member : MemberTree) :
    (member.memberIn mode).shape = (member.memberIn mode').shape := by
  cases member with
  | constructor item =>
      simp only [MemberTree.memberIn, Member.shape, ConstructorTree.constructorIn,
        Constructor.shape, shape_typeParams mode mode', shape_parameters mode mode',
        shape_plainTypes mode mode']
  | method item =>
      simp only [MemberTree.memberIn, Member.shape, MethodTree.methodIn, Method.shape,
        shape_typeParams mode mode', shape_parameters mode mode', shape_plainTypes mode mode',
        TypeTree.shape_typeIn mode mode']
  | field item =>
      simp only [MemberTree.memberIn, Member.shape, FieldTree.fieldIn, Field.shape,
        TypeTree.shape_typeIn mode mode']

theorem shape_membersIn (members : List (Located MemberTree)) :
    (membersIn mode members).mapValues (Located.move id Member.shape) =
      (membersIn mode' members).mapValues (Located.move id Member.shape) := by
  rw [membersIn_eq, membersIn_eq, OrderedMap.mapValues_mapValues, OrderedMap.mapValues_mapValues]
  refine OrderedMap.mapValues_congr fun found _ => ?_
  simp only [Located.move, shape_memberIn mode mode']

/-- A class has the same shape under every null mode. -/
theorem shape_classIn (package : String) (cls : ClassTree) :
    (cls.classIn mode package).shape = (cls.classIn mode' package).shape := by
  have superclass : (cls.supertypes.superclass.map (TypeTree.plainIn mode)).map TypeRef.shape =
      (cls.supertypes.superclass.map (TypeTree.plainIn mode')).map TypeRef.shape := by
    rw [Option.map_map, Option.map_map]
    exact Option.map_congr fun type _ => TypeTree.shape_typeIn mode mode' none type
  simp only [ClassTree.classIn, ClassDecl.shape, OrderedSet.ofList_map_ofList,
    shape_typeParams mode mode', shape_plainTypes mode mode', superclass,
    shape_membersIn mode mode']

theorem shape_blockIn (block : Located PackageTree) :
    (blockIn mode block).changed id ClassDecl.shape =
      (blockIn mode' block).changed id ClassDecl.shape := by
  simp only [blockIn, Block.changed, List.map_map, Block.mk.injEq, id, true_and]
  refine List.map_congr_left fun cls _ => ?_
  simp only [Function.comp_apply, Located.move, shape_classIn mode mode']

end Grammar

end ApiCompat
