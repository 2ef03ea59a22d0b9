import ApiCompat.Proofs.Api.Keyed
import ApiCompat.Proofs.Ordered.Insert
import ApiCompat.Proofs.TypeRef.Decoded

/-!
# Declarations from their JSON

From modifiers up to whole descriptions, each declaration is decoded from what
is written for it.  The members of a class are decoded when each stands under
its own key; packages and classes may stand under any keys.
-/

set_option autoImplicit false

namespace ApiCompat

open Json Decoder

theorem Visibility.ofJsonWord?_jsonWord (visibility : Visibility) :
    Visibility.ofJsonWord? visibility.jsonWord = some visibility := by
  cases visibility <;> rfl

theorem ClassKind.ofJsonWord?_jsonWord (kind : ClassKind) :
    ClassKind.ofJsonWord? kind.jsonWord = some kind := by
  cases kind <;> rfl

/-! ## Parts of members -/

theorem Modifiers.decodes (held : Bool) (modifiers : Modifiers) :
    Decodes (Modifiers.ofJson? held) modifiers.toJson modifiers := by
  have names := (List.Sublist.refl ["visibility", "is_static", "is_final", "is_abstract",
    "is_default", "is_synchronized", "is_native", "is_transient", "is_volatile", "is_strictfp",
    "is_sealed", "is_deprecated"]).append
      (sublist_fieldIfAny "annotations" string modifiers.annotations)
  have annotations : ∀ annotation ∈ modifiers.annotations,
      Decodes text (string annotation) annotation := fun annotation _ => decodes_text annotation
  refine decodes_record (by decide) names fun room fitting => ?_
  refine bind_required fitting
    (decodes_word held modifiers.visibility.ofJsonWord?_jsonWord) (by simp) ?_
  refine bind_required fitting (decodes_truth modifiers.isStatic) (by simp) ?_
  refine bind_required fitting (decodes_truth modifiers.isFinal) (by simp) ?_
  refine bind_required fitting (decodes_truth modifiers.isAbstract) (by simp) ?_
  refine bind_required fitting (decodes_truth modifiers.isDefault) (by simp) ?_
  refine bind_required fitting (decodes_truth modifiers.isSynchronized) (by simp) ?_
  refine bind_required fitting (decodes_truth modifiers.isNative) (by simp) ?_
  refine bind_required fitting (decodes_truth modifiers.isTransient) (by simp) ?_
  refine bind_required fitting (decodes_truth modifiers.isVolatile) (by simp) ?_
  refine bind_required fitting (decodes_truth modifiers.isStrictfp) (by simp) ?_
  refine bind_required fitting (decodes_truth modifiers.isSealed) (by simp) ?_
  refine bind_required fitting (decodes_truth modifiers.isDeprecated) (by simp) ?_
  exact bind_fieldIfAny fitting annotations (by simp) rfl

@[simp] theorem Modifiers.plain_toJson (modifiers : Modifiers) : Plain modifiers.toJson := by
  simp [Modifiers.toJson]

theorem TypeParam.decodes (held : Bool) (param : TypeParam) :
    Decodes (TypeParam.ofJson? held) param.toJson param := by
  have names := (List.Sublist.refl ["name"]).append
    (sublist_fieldIfAny "bounds" TypeRef.toJson param.bounds)
  have bounds : ∀ type ∈ param.bounds, Decodes (TypeRef.ofJson? held) type.toJson type :=
    fun type _ => type.decodes held
  refine decodes_record (by decide) names fun room fitting => ?_
  refine bind_required fitting (decodes_text param.name) (by simp) ?_
  exact bind_fieldIfAny fitting bounds (by simp) rfl

@[simp] theorem TypeParam.plain_toJson (param : TypeParam) : Plain param.toJson := by
  simp [TypeParam.toJson]

theorem Parameter.decodes (held : Bool) (parameter : Parameter) :
    Decodes (Parameter.ofJson? held) parameter.toJson parameter := by
  have name : ∀ name ∈ parameter.name, Decodes text (string name) name ∧ string name ≠ null :=
    fun name _ => ⟨decodes_text name, nofun⟩
  refine decodes_record (by decide) (List.Sublist.refl _) fun room fitting => ?_
  refine bind_optional fitting name (by simp) ?_
  exact bind_required fitting (parameter.type.decodes held) (by simp) rfl

@[simp] theorem Parameter.plain_toJson (parameter : Parameter) : Plain parameter.toJson := by
  simp [Parameter.toJson]

/-! ## Members -/

section Parts

variable {held : Bool}

theorem decodes_typeParams (params : List TypeParam) :
    ∀ param ∈ params, Decodes (TypeParam.ofJson? held) param.toJson param :=
  fun param _ => param.decodes held

theorem decodes_types (types : List TypeRef) :
    ∀ type ∈ types, Decodes (TypeRef.ofJson? held) type.toJson type :=
  fun type _ => type.decodes held

theorem decodes_parameters (parameters : List Parameter) :
    Decodes (list (Parameter.ofJson? held)) (array (parameters.map Parameter.toJson))
      parameters :=
  decodes_list fun parameter _ => parameter.decodes held

theorem decodes_optionalText (chosen : Option String) :
    ∀ value ∈ chosen, Decodes text (string value) value ∧ string value ≠ null :=
  fun value _ => ⟨decodes_text value, nofun⟩

end Parts

theorem Constructor.jsonFields_names (item : Constructor) (line : Nat) :
    ((item.jsonFields line).map Prod.fst).Sublist
      ["name", "modifiers", "type_params", "parameters", "throws", "line"] := by
  have names := (List.Sublist.refl ["name", "modifiers"]).append
    ((sublist_fieldIfAny "type_params" TypeParam.toJson item.typeParams).append
      ((List.Sublist.refl ["parameters"]).append
        ((sublist_fieldIfAny "throws" TypeRef.toJson item.throws).append
          (List.Sublist.refl ["line"]))))
  simpa [Constructor.jsonFields] using names

theorem Constructor.decodes (held : Bool) (item : Constructor) (line : Nat) :
    Decodes (Constructor.ofJson? held) (object (item.jsonFields line)) { line, item } := by
  refine decodes_record (by decide) (item.jsonFields_names line) fun room fitting => ?_
  refine bind_required fitting (decodes_text item.name) (by simp [jsonFields]) ?_
  refine bind_required fitting (item.modifiers.decodes held) (by simp [jsonFields]) ?_
  refine bind_fieldIfAny fitting (decodes_typeParams item.typeParams) (by simp [jsonFields]) ?_
  refine bind_required fitting (decodes_parameters item.parameters) (by simp [jsonFields]) ?_
  refine bind_fieldIfAny fitting (decodes_types item.throws) (by simp [jsonFields]) ?_
  exact bind_required fitting (decodes_count line) (by simp [jsonFields]) rfl

theorem Method.jsonFields_names (item : Method) (line : Nat) :
    ((item.jsonFields line).map Prod.fst).Sublist
      ["name", "modifiers", "type_params", "return_type", "parameters", "throws",
        "default_value", "line"] := by
  have names := (List.Sublist.refl ["name", "modifiers"]).append
    ((sublist_fieldIfAny "type_params" TypeParam.toJson item.typeParams).append
      ((List.Sublist.refl ["return_type", "parameters"]).append
        ((sublist_fieldIfAny "throws" TypeRef.toJson item.throws).append
          ((sublist_fieldIfSome "default_value" string item.defaultValue).append
            (List.Sublist.refl ["line"])))))
  simpa [Method.jsonFields] using names

theorem Method.decodes (held : Bool) (item : Method) (line : Nat) :
    Decodes (Method.ofJson? held) (object (item.jsonFields line)) { line, item } := by
  refine decodes_record (by decide) (item.jsonFields_names line) fun room fitting => ?_
  refine bind_required fitting (decodes_text item.name) (by simp [jsonFields]) ?_
  refine bind_required fitting (item.modifiers.decodes held) (by simp [jsonFields]) ?_
  refine bind_fieldIfAny fitting (decodes_typeParams item.typeParams) (by simp [jsonFields]) ?_
  refine bind_required fitting (item.returnType.decodes held) (by simp [jsonFields]) ?_
  refine bind_required fitting (decodes_parameters item.parameters) (by simp [jsonFields]) ?_
  refine bind_fieldIfAny fitting (decodes_types item.throws) (by simp [jsonFields]) ?_
  refine bind_fieldIfSome fitting (decodes_optionalText item.defaultValue)
    (by simp [jsonFields]) ?_
  exact bind_required fitting (decodes_count line) (by simp [jsonFields]) rfl

theorem Field.jsonFields_names (item : Field) (line : Nat) :
    ((item.jsonFields line).map Prod.fst).Sublist
      ["name", "modifiers", "type", "value", "enum_constant", "line"] := by
  have names := (List.Sublist.refl ["name", "modifiers", "type"]).append
    ((sublist_fieldIfSome "value" string item.value).append
      (List.Sublist.refl ["enum_constant", "line"]))
  simpa [Field.jsonFields] using names

theorem Field.decodes (held : Bool) (item : Field) (line : Nat) :
    Decodes (Field.ofJson? held) (object (item.jsonFields line)) { line, item } := by
  refine decodes_record (by decide) (item.jsonFields_names line) fun room fitting => ?_
  refine bind_required fitting (decodes_text item.name) (by simp [jsonFields]) ?_
  refine bind_required fitting (item.modifiers.decodes held) (by simp [jsonFields]) ?_
  refine bind_required fitting (item.type.decodes held) (by simp [jsonFields]) ?_
  refine bind_fieldIfSome fitting (decodes_optionalText item.value) (by simp [jsonFields]) ?_
  refine bind_withDefault fitting (decodes_truth item.isEnumConstant) (by simp [jsonFields]) ?_
  exact bind_required fitting (decodes_count line) (by simp [jsonFields]) rfl

@[simp] theorem Member.plain_toJson (member : Located Member) : Plain (Member.toJson member) := by
  obtain ⟨line, item⟩ := member
  cases item <;>
    simp [Member.toJson, Constructor.jsonFields, Method.jsonFields, Field.jsonFields]

/-- The tag of a member comes off, and what it was in front of is decoded. -/
theorem Member.untag?_fits {room : Nat} {tag : String} {fields : List (String × Json)}
    {names : List String} (written : (fields.map Prod.fst).Sublist names)
    (untagged : "member" ∉ names) (fits : Fits room (object (("member", string tag) :: fields))) :
    untag? "member" (object (("member", string tag) :: fields)) = some (tag, object fields) ∧
      Fits room (object fields) :=
  ⟨untag?_cons fun stored => untagged (written.subset stored),
    fits.fields fun _ => List.mem_cons_of_mem _⟩

theorem Member.decodes (member : Located Member) :
    Decodes Member.ofJson? (Member.toJson member) member := by
  intro room fits
  have storable := isStorable_of_fits _ (Member.plain_toJson member) room fits
  obtain ⟨line, item⟩ := member
  rw [Member.ofJson?, storable]
  cases item with
  | constructor item =>
      obtain ⟨untagged, inside⟩ := untag?_fits (item.jsonFields_names line) (by decide) fits
      simp only [Member.toJson, untagged, item.decodes true line room inside]
      rfl
  | method item =>
      obtain ⟨untagged, inside⟩ := untag?_fits (item.jsonFields_names line) (by decide) fits
      simp only [Member.toJson, untagged, item.decodes true line room inside]
      rfl
  | field item =>
      obtain ⟨untagged, inside⟩ := untag?_fits (item.jsonFields_names line) (by decide) fits
      simp only [Member.toJson, untagged, item.decodes true line room inside]
      rfl

theorem ClassDecl.Keyed.index_values {cls : ClassDecl} (keyed : cls.Keyed) :
    Member.index cls.members.values = cls.members := by
  have entries : (cls.members.values.map fun member => (member.item.key, member)) =
      cls.members.entries := by
    rw [OrderedMap.values, List.map_map]
    refine (List.map_congr_left fun entry member => ?_).trans (List.map_id _)
    exact Prod.ext (keyed entry member).symm rfl
  rw [Member.index, entries, OrderedMap.ofList_entries]

/-! ## Classes, packages and whole descriptions -/

theorem ClassDecl.decodes (cls : Located ClassDecl) (keyed : cls.item.Keyed) :
    Decodes ClassDecl.ofJson? (ClassDecl.toJson cls) cls := by
  have names := (List.Sublist.refl ["name", "qualified_name", "kind", "modifiers"]).append
    ((sublist_fieldIfAny "type_params" TypeParam.toJson cls.item.typeParams).append
      ((sublist_fieldIfSome "superclass" TypeRef.toJson cls.item.superclass).append
        (List.Sublist.refl ["interfaces", "members", "line"])))
  have superclass : ∀ type ∈ cls.item.superclass,
      Decodes (TypeRef.ofJson? false) type.toJson type ∧ type.toJson ≠ null :=
    fun type _ => ⟨type.decodes false, type.toJson_ne_null⟩
  have interfaces : Decodes (list (TypeRef.ofJson? false))
      (array (cls.item.interfaces.toList.map TypeRef.toJson)) cls.item.interfaces.toList :=
    decodes_list (decodes_types _)
  have members : Decodes (list Member.ofJson?)
      (array (cls.item.members.values.map Member.toJson)) cls.item.members.values :=
    decodes_list fun member _ => Member.decodes member
  refine decodes_record (by decide) (by simpa using names) fun room fitting => ?_
  refine bind_required fitting (decodes_text cls.item.name) (by simp) ?_
  refine bind_required fitting (decodes_text cls.item.qualifiedName) (by simp) ?_
  refine bind_required fitting (decodes_word false cls.item.kind.ofJsonWord?_jsonWord)
    (by simp) ?_
  refine bind_required fitting (cls.item.modifiers.decodes false) (by simp) ?_
  refine bind_fieldIfAny fitting (decodes_typeParams cls.item.typeParams) (by simp) ?_
  refine bind_fieldIfSome fitting superclass (by simp) ?_
  refine bind_withDefault fitting interfaces (by simp) ?_
  refine bind_required fitting members (by simp) ?_
  refine bind_required fitting (decodes_count cls.line) (by simp) ?_
  rw [keyed.index_values, OrderedSet.ofList_toList]
  rfl

@[simp] theorem ClassDecl.plain_toJson (cls : Located ClassDecl) :
    Plain (ClassDecl.toJson cls) := by
  simp [ClassDecl.toJson]

theorem Package.decodes (package : Located Package)
    (keyed : ∀ cls ∈ package.item.classes.values, cls.item.Keyed) :
    Decodes Package.ofJson? (Package.toJson package) package := by
  have classes : Decodes (entries ClassDecl.ofJson?)
      (object (package.item.classes.entries.map fun entry => (entry.1, ClassDecl.toJson entry.2)))
      package.item.classes.entries :=
    decodes_entries fun entry stored =>
      ClassDecl.decodes entry.2 (keyed entry.2 (List.mem_map_of_mem stored))
  refine decodes_record (by decide) (List.Sublist.refl _) fun room fitting => ?_
  refine bind_required fitting (decodes_text package.item.name) (by simp) ?_
  refine bind_required fitting classes (by simp) ?_
  refine bind_required fitting (decodes_count package.line) (by simp) ?_
  rw [OrderedMap.ofList_entries]
  rfl

@[simp] theorem Package.plain_toJson (package : Located Package) :
    Plain (Package.toJson package) := by
  have classes := @plainFields_map _ ClassDecl.toJson package.item.classes.entries
    fun entry _ => ClassDecl.plain_toJson entry.2
  simp [Package.toJson, classes]

theorem Api.decodes (api : Api) (keyed : ∀ cls ∈ api.classes, cls.item.Keyed) :
    Decodes Api.decode? api.toJson api := by
  have inPackage : ∀ package ∈ api.packages.values, ∀ cls ∈ package.item.classes.values,
      cls.item.Keyed := fun package stored cls held =>
    keyed cls (List.mem_flatMap.mpr ⟨package, stored, held⟩)
  have packages : Decodes (entries Package.ofJson?)
      (object (api.packages.entries.map fun entry => (entry.1, Package.toJson entry.2)))
      api.packages.entries :=
    decodes_entries fun entry stored =>
      Package.decodes entry.2 (inPackage entry.2 (List.mem_map_of_mem stored))
  refine decodes_record (by decide) (List.Sublist.refl _) fun room fitting => ?_
  refine bind_required fitting (decodes_text api.source) (by simp) ?_
  refine bind_required fitting (decodes_word false (NullMode.ofName?_name api.nullMode))
    (by simp) ?_
  refine bind_required fitting packages (by simp) ?_
  rw [OrderedMap.ofList_entries]
  rfl

theorem Api.plain_toJson (api : Api) : Plain api.toJson := by
  have packages := @plainFields_map _ Package.toJson api.packages.entries
    fun entry _ => Package.plain_toJson entry.2
  simp [Api.toJson, packages]

end ApiCompat
