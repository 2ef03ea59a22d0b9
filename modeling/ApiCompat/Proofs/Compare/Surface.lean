import ApiCompat.Proofs.Compare.Matching

/-!
# The surface of an API

Two APIs have the same surface when they hold the same classes and members and
agree in everything that the rules of a comparison look at.  Every rule asks
for an order on what it compares; asked in both directions the orders leave no
room, so two APIs have the same surface just where neither comparison finds
anything (`findings_both_ways`).
-/

set_option autoImplicit false

namespace ApiCompat

/-- Whether the API has a package of that name with a class in it. -/
def Api.HoldsClasses (api : Api) (package : String) : Prop :=
  ∃ found, api.packages.get? package = some found ∧ found.item.classes.isEmpty = false

theorem Api.holdsClasses_iff (api : Api) (package : String) :
    api.HoldsClasses package ↔ ∃ name cls, api.classIn? package name = some cls := by
  constructor
  · rintro ⟨found, lookup, filled⟩
    cases entries : found.item.classes.entries with
    | nil => simp [OrderedMap.isEmpty, entries] at filled
    | cons entry rest =>
        have stored : (entry.1, entry.2) ∈ found.item.classes.entries := by simp [entries]
        refine ⟨entry.1, entry.2, ?_⟩
        rw [Api.classIn?, lookup]
        exact (found.item.classes.get?_eq_some_iff _ _).mpr stored
  · rintro ⟨name, cls, found⟩
    obtain ⟨package', lookup, inPackage⟩ := Option.bind_eq_some_iff.mp found
    have stored := (package'.item.classes.get?_eq_some_iff _ _).mp inPackage
    refine ⟨package', lookup, ?_⟩
    rw [OrderedMap.isEmpty, List.isEmpty_eq_false_iff]
    exact List.ne_nil_of_mem stored

namespace Compare

/-! ## What is on the surface -/

def SameThrows (was now : List TypeRef) : Prop :=
  ∀ name, name ∈ was.map TypeRef.erasure ↔ name ∈ now.map TypeRef.erasure

def SameParameters (was now : List Parameter) : Prop :=
  was.map (fun parameter => parameter.type.nullness) =
    now.map fun parameter => parameter.type.nullness

structure SameConstructor (was now : Constructor) : Prop where
  scope : was.modifiers.visibility.rank = now.modifiers.visibility.rank
  throws : SameThrows was.throws now.throws
  parameters : SameParameters was.parameters now.parameters

/-- In a final class (`closed`) it does not matter whether a method is final. -/
structure SameMethod (closed : Bool) (was now : Method) : Prop where
  scope : was.modifiers.visibility.rank = now.modifiers.visibility.rank
  static : was.modifiers.isStatic = now.modifiers.isStatic
  final : closed = false → was.modifiers.isFinal = now.modifiers.isFinal
  abstract : was.modifiers.isAbstract = now.modifiers.isAbstract
  returnType : was.returnType.sameShape now.returnType = true
  throws : SameThrows was.throws now.throws
  result : now.returnType.isVoid = false → was.returnType.nullness = now.returnType.nullness
  parameters : SameParameters was.parameters now.parameters

structure SameField (was now : Field) : Prop where
  scope : was.modifiers.visibility.rank = now.modifiers.visibility.rank
  static : was.modifiers.isStatic = now.modifiers.isStatic
  final : was.modifiers.isFinal = now.modifiers.isFinal
  type : was.type.sameShape now.type = true
  value : ∀ before after, was.value = some before → now.value = some after → before = after
  nullness : was.type.nullness = now.type.nullness

def SameMember (closed : Bool) : Member → Member → Prop
  | .constructor was, .constructor now => SameConstructor was now
  | .method was, .method now => SameMethod closed was now
  | .field was, .field now => SameField was now
  | _, _ => False

structure SameDeclaration (was now : ClassDecl) : Prop where
  kind : was.kind = now.kind
  scope : was.modifiers.visibility.rank = now.modifiers.visibility.rank
  static : was.modifiers.isStatic = now.modifiers.isStatic
  final : was.modifiers.isFinal = now.modifiers.isFinal
  abstract : now.kind = .classKind → was.modifiers.isAbstract = now.modifiers.isAbstract
  superclass : now.kind = .classKind → superclassName was = superclassName now
  interfaces : ∀ name, name ∈ was.interfaceNames ↔ name ∈ now.interfaceNames

structure SameClass (was now : ClassDecl) : Prop where
  declaration : SameDeclaration was now
  members : ∀ key, Option.Rel
    (fun member member' => SameMember now.modifiers.isFinal member.item member'.item)
    (was.members.get? key) (now.members.get? key)

structure SameSurface (previous current : Api) : Prop where
  packages : ∀ package, previous.HoldsClasses package ↔ current.HoldsClasses package
  classes : ∀ package name, Option.Rel (fun cls cls' => SameClass cls.item cls'.item)
    (previous.classIn? package name) (current.classIn? package name)

/-- The packages are the same where the classes are. -/
theorem SameSurface.of_classes {previous current : Api}
    (classes : ∀ package name, Option.Rel (fun cls cls' => SameClass cls.item cls'.item)
      (previous.classIn? package name) (current.classIn? package name)) :
    SameSurface previous current := by
  refine ⟨fun package => ?_, classes⟩
  rw [previous.holdsClasses_iff, current.holdsClasses_iff]
  constructor
  · rintro ⟨name, cls, found⟩
    obtain ⟨cls', found', _⟩ := (found_of_rel (classes package name)).1 cls found
    exact ⟨name, cls', found'⟩
  · rintro ⟨name, cls', found'⟩
    obtain ⟨cls, found, _⟩ := (found_of_rel (classes package name)).2 cls' found'
    exact ⟨name, cls, found⟩

/-! ## Rules in both directions -/

theorem regression?_both_ways (first second : Nullness) (position : Position) :
    regression? first second position = none ∧ regression? second first position = none ↔
      first = second := by
  cases first <;> cases second <;> cases position <;> simp [regression?]

theorem throws_both_ways (was now : List TypeRef) :
    ThrowsCompatible was now ∧ ThrowsCompatible now was ↔ SameThrows was now := by
  have named : ∀ was now : List TypeRef, ThrowsCompatible was now ↔
      ∀ name ∈ now.map TypeRef.erasure, name ∈ was.map TypeRef.erasure := by
    intro was now
    rw [ThrowsCompatible, List.forall_mem_map]
  rw [named, named]
  constructor
  · rintro ⟨added, dropped⟩ name
    exact ⟨dropped name, added name⟩
  · intro same
    exact ⟨fun name member => (same name).mpr member, fun name member => (same name).mp member⟩

theorem parameters_both_ways {was now : List Parameter} (aligned : was.length = now.length) :
    ParametersCompatible was now ∧ ParametersCompatible now was ↔ SameParameters was now := by
  induction was generalizing now with
  | nil =>
      cases now with
      | nil => simp [ParametersCompatible, SameParameters]
      | cons after rest' => simp at aligned
  | cons before rest ih =>
      cases now with
      | nil => simp at aligned
      | cons after rest' =>
          have lengths : rest.length = rest'.length := by simpa using aligned
          have later := ih lengths
          have first := regression?_both_ways before.type.nullness after.type.nullness .parameter
          simp only [ParametersCompatible, SameParameters, List.zip_cons_cons,
            List.forall_mem_cons, List.map_cons, List.cons.injEq] at later ⊢
          rw [← later, ← first]
          constructor
          · rintro ⟨⟨h₁, h₂⟩, h₃, h₄⟩
            exact ⟨⟨h₁, h₃⟩, h₂, h₄⟩
          · rintro ⟨⟨h₁, h₃⟩, h₂, h₄⟩
            exact ⟨⟨h₁, h₂⟩, h₃, h₄⟩

/-- A flag that can be raised in neither direction is the same. -/
theorem flag_both_ways {first second : Bool} (forth : first = false → second = false)
    (back : second = false → first = false) : first = second := by
  cases first with
  | false => exact (forth rfl).symm
  | true =>
      cases second with
      | false => exact back rfl
      | true => rfl

/-- Sealing asked for in both directions: only what is closed may hide a difference. -/
theorem final_both_ways {closed first second : Bool} :
    (first = false → second = true → closed = true) ∧
        (second = false → first = true → closed = true) ↔
      (closed = false → first = second) := by
  cases closed <;> cases first <;> cases second <;> simp

theorem result_both_ways {was now : TypeRef} (sameShape : was.sameShape now = true) :
    (now.isVoid = false → regression? was.nullness now.nullness .result = none) ∧
        (was.isVoid = false → regression? now.nullness was.nullness .result = none) ↔
      (now.isVoid = false → was.nullness = now.nullness) := by
  rw [TypeRef.isVoid_of_sameShape sameShape, ← imp_and]
  exact imp_congr_right fun _ => regression?_both_ways _ _ .result

theorem constructor_both_ways {was now : Constructor}
    (aligned : was.parameters.length = now.parameters.length) :
    ConstructorCompatible was now ∧ ConstructorCompatible now was ↔ SameConstructor was now := by
  constructor
  · rintro ⟨forth, back⟩
    exact {
      scope := Nat.le_antisymm forth.scope back.scope
      throws := (throws_both_ways _ _).mp ⟨forth.throws, back.throws⟩
      parameters := (parameters_both_ways aligned).mp ⟨forth.parameters, back.parameters⟩ }
  · intro same
    obtain ⟨added, dropped⟩ := (throws_both_ways _ _).mpr same.throws
    obtain ⟨passed, passed'⟩ := (parameters_both_ways aligned).mpr same.parameters
    exact ⟨⟨Nat.le_of_eq same.scope, added, passed⟩,
      ⟨Nat.le_of_eq same.scope.symm, dropped, passed'⟩⟩

theorem method_both_ways {cls cls' : ClassDecl} {was now : Method}
    (closed : cls.modifiers.isFinal = cls'.modifiers.isFinal)
    (aligned : was.parameters.length = now.parameters.length) :
    MethodCompatible cls' was now ∧ MethodCompatible cls now was ↔
      SameMethod cls'.modifiers.isFinal was now := by
  constructor
  · rintro ⟨forth, back⟩
    exact {
      scope := Nat.le_antisymm forth.scope back.scope
      static := forth.static
      final := final_both_ways.mp ⟨forth.final, closed ▸ back.final⟩
      abstract := flag_both_ways forth.abstract back.abstract
      returnType := forth.returnType
      throws := (throws_both_ways _ _).mp ⟨forth.throws, back.throws⟩
      result := (result_both_ways forth.returnType).mp ⟨forth.result, back.result⟩
      parameters := (parameters_both_ways aligned).mp ⟨forth.parameters, back.parameters⟩ }
  · intro same
    obtain ⟨sealed, sealed'⟩ := final_both_ways.mpr same.final
    obtain ⟨added, dropped⟩ := (throws_both_ways _ _).mpr same.throws
    obtain ⟨returned, returned'⟩ := (result_both_ways same.returnType).mpr same.result
    obtain ⟨passed, passed'⟩ := (parameters_both_ways aligned).mpr same.parameters
    constructor
    · exact {
        scope := Nat.le_of_eq same.scope
        static := same.static
        final := sealed
        abstract := fun concrete => same.abstract ▸ concrete
        returnType := same.returnType
        throws := added
        result := returned
        parameters := passed }
    · exact {
        scope := Nat.le_of_eq same.scope.symm
        static := same.static.symm
        final := closed ▸ sealed'
        abstract := fun concrete => same.abstract ▸ concrete
        returnType := TypeRef.sameShape_comm _ _ ▸ same.returnType
        throws := dropped
        result := returned'
        parameters := passed' }

theorem field_both_ways (was now : Field) :
    FieldCompatible was now ∧ FieldCompatible now was ↔ SameField was now := by
  constructor
  · rintro ⟨forth, back⟩
    exact {
      scope := Nat.le_antisymm forth.scope back.scope
      static := forth.static
      final := flag_both_ways forth.final back.final
      type := forth.type
      value := forth.value
      nullness := (regression?_both_ways _ _ .result).mp ⟨forth.nullness, back.nullness⟩ }
  · intro same
    obtain ⟨marked, marked'⟩ := (regression?_both_ways _ _ .result).mpr same.nullness
    constructor
    · exact {
        scope := Nat.le_of_eq same.scope
        static := same.static
        final := fun opened => same.final ▸ opened
        type := same.type
        value := same.value
        nullness := marked }
    · exact {
        scope := Nat.le_of_eq same.scope.symm
        static := same.static.symm
        final := fun opened => same.final ▸ opened
        type := TypeRef.sameShape_comm _ _ ▸ same.type
        value := fun before after was' now' => (same.value after before now' was').symm
        nullness := marked' }

theorem declaration_both_ways (was now : ClassDecl) :
    DeclarationCompatible was now ∧ DeclarationCompatible now was ↔ SameDeclaration was now := by
  constructor
  · rintro ⟨forth, back⟩
    exact {
      kind := forth.kind
      scope := Nat.le_antisymm forth.scope back.scope
      static := forth.static
      final := flag_both_ways forth.final back.final
      abstract := fun isClass =>
        flag_both_ways (forth.abstract isClass) (back.abstract (forth.kind.trans isClass))
      superclass := forth.superclass
      interfaces := fun name => ⟨forth.interfaces name, back.interfaces name⟩ }
  · intro same
    constructor
    · exact {
        kind := same.kind
        scope := Nat.le_of_eq same.scope
        static := same.static
        final := fun opened => same.final ▸ opened
        abstract := fun isClass concrete => same.abstract isClass ▸ concrete
        superclass := same.superclass
        interfaces := fun name => (same.interfaces name).mp }
    · exact {
        kind := same.kind.symm
        scope := Nat.le_of_eq same.scope.symm
        static := same.static.symm
        final := fun opened => same.final ▸ opened
        abstract := fun isClass concrete => same.abstract (same.kind ▸ isClass) ▸ concrete
        superclass := fun isClass => (same.superclass (same.kind ▸ isClass)).symm
        interfaces := fun name => (same.interfaces name).mpr }

theorem member_both_ways {cls cls' : ClassDecl} {was now : Member}
    (closed : cls.modifiers.isFinal = cls'.modifiers.isFinal) (sameKey : was.key = now.key) :
    MemberCompatible cls' was now ∧ MemberCompatible cls now was ↔
      SameMember cls'.modifiers.isFinal was now := by
  cases was <;> cases now <;> simp only [Member.key, reduceCtorEq] at sameKey
  case constructor.constructor was now =>
    exact constructor_both_ways (erasures_length (MemberKey.constructor.inj sameKey))
  case method.method was now =>
    exact method_both_ways closed (erasures_length (MemberKey.method.inj sameKey).2)
  case field.field was now => exact field_both_ways was now

/-! ## Classes -/

/-- A class that changed compatibly, with all of its members. -/
structure ClassCompatible (was now : ClassDecl) : Prop where
  declaration : DeclarationCompatible was now
  members : ∀ key member, was.members.get? key = some member →
    ∃ found, now.members.get? key = some found ∧ MemberCompatible now member.item found.item

theorem classFindings_eq_nil_iff (sources : Sources) {was now : Located ClassDecl}
    (keyed : was.item.Keyed) :
    classFindings sources was now = [] ↔ ClassCompatible was.item now.item := by
  rw [classFindings_eq_nil]
  rw [keyed.forall_member_iff fun key member =>
    ∃ found, now.item.members.get? key = some found ∧
      MemberCompatible now.item member.item found.item]
  exact ⟨fun both => ⟨both.1, both.2⟩, fun compatible => ⟨compatible.1, compatible.2⟩⟩

theorem members_both_ways {was now : ClassDecl} (wasKeyed : was.Keyed) (nowKeyed : now.Keyed)
    (closed : was.modifiers.isFinal = now.modifiers.isFinal) (key : MemberKey) :
    (∀ member, was.members.get? key = some member →
        ∃ found, now.members.get? key = some found ∧
          MemberCompatible now member.item found.item) ∧
      (∀ member, now.members.get? key = some member →
        ∃ found, was.members.get? key = some found ∧
          MemberCompatible was member.item found.item) ↔
      Option.Rel
        (fun member member' => SameMember now.modifiers.isFinal member.item member'.item)
        (was.members.get? key) (now.members.get? key) := by
  apply rel_both_ways_iff
  intro member member' stored stored'
  have sameKey : member.item.key = member'.item.key :=
    (wasKeyed.key_of_get? stored).trans (nowKeyed.key_of_get? stored').symm
  exact member_both_ways closed sameKey

theorem class_both_ways {was now : ClassDecl} (wasKeyed : was.Keyed) (nowKeyed : now.Keyed) :
    ClassCompatible was now ∧ ClassCompatible now was ↔ SameClass was now := by
  constructor
  · rintro ⟨forth, back⟩
    have declaration :=
      (declaration_both_ways was now).mp ⟨forth.declaration, back.declaration⟩
    refine ⟨declaration, fun key => ?_⟩
    apply (members_both_ways wasKeyed nowKeyed declaration.final key).mp
    exact ⟨forth.members key, back.members key⟩
  · intro same
    obtain ⟨declaration, declaration'⟩ := (declaration_both_ways was now).mpr same.declaration
    have members := fun key =>
      (members_both_ways wasKeyed nowKeyed same.declaration.final key).mpr (same.members key)
    exact ⟨⟨declaration, fun key => (members key).1⟩, ⟨declaration', fun key => (members key).2⟩⟩

/-! ## Whole comparisons -/

theorem classIn?_stored {api : Api} (keyed : api.Keyed) {package name : String}
    {cls : Located ClassDecl} (found : api.classIn? package name = some cls) :
    cls.item.Keyed ∧ ∃ holder ∈ api.packages.values, holder.item.name = package ∧
      cls ∈ holder.item.classes.values ∧ cls.item.name = name := by
  obtain ⟨holder, lookup, inPackage⟩ := Option.bind_eq_some_iff.mp found
  obtain ⟨packageName, packageKeyed⟩ := keyed.name_of_get? lookup
  obtain ⟨className, classKeyed⟩ := packageKeyed.name_of_get? inPackage
  exact ⟨classKeyed, holder, OrderedMap.mem_values_of_get? lookup, packageName,
    OrderedMap.mem_values_of_get? inPackage, className⟩

/-- A comparison finds nothing just where every class is still there and changed compatibly. -/
theorem findings_eq_nil_iff {previous : Api} (keyed : previous.Keyed) (current : Api) :
    findings previous current = [] ↔
      ∀ package name cls, previous.classIn? package name = some cls →
        ∃ found, current.classIn? package name = some found ∧
          ClassCompatible cls.item found.item := by
  constructor
  · intro silent package name cls found
    obtain ⟨classKeyed, holder, holderStored, rfl, classStored, rfl⟩ := classIn?_stored keyed found
    obtain ⟨foundPackage, now, packageLookup, classLookup, declaration, members⟩ :=
      silent_class silent holderStored classStored
    refine ⟨now, ?_, declaration, ?_⟩
    · rw [Api.classIn?, packageLookup]
      exact classLookup
    · exact (classKeyed.forall_member_iff fun key member =>
        ∃ found, now.item.members.get? key = some found ∧
          MemberCompatible now.item member.item found.item).mp members
  · intro kept
    rw [findings, List.flatMap_eq_nil_iff]
    intro holder holderStored
    have holderLookup := keyed.get?_name holderStored
    have holderKeyed := (keyed.name_of_get? holderLookup).2
    have keptClass : ∀ cls ∈ holder.item.classes.values, ∃ found,
        current.classIn? holder.item.name cls.item.name = some found ∧
          ClassCompatible cls.item found.item := by
      intro cls classStored
      apply kept holder.item.name cls.item.name cls
      rw [Api.classIn?, holderLookup]
      exact holderKeyed.get?_name classStored
    cases lookup : current.packages.get? holder.item.name with
    | none =>
        have noClass : holder.item.classes.values = [] := by
          rw [List.eq_nil_iff_forall_not_mem]
          intro cls classStored
          obtain ⟨found, missing, _⟩ := keptClass cls classStored
          rw [Api.classIn?, lookup] at missing
          cases missing
        have empty : holder.item.classes.isEmpty = true :=
          List.isEmpty_iff.mpr (List.map_eq_nil_iff.mp noClass)
        simp [packageOutcome, lookup, empty]
    | some foundPackage =>
        simp only [packageOutcome, lookup, List.flatMap_eq_nil_iff]
        intro cls classStored
        obtain ⟨found, classLookup, compatible⟩ := keptClass cls classStored
        rw [Api.classIn?, lookup] at classLookup
        have classKeyed := (holderKeyed.name_of_get? (holderKeyed.get?_name classStored)).2
        exact (classOutcome_eq_nil _ _ _).mpr
          ⟨found, classLookup, (classFindings_eq_nil_iff _ classKeyed).mpr compatible⟩

theorem classIn?_both_ways {previous current : Api} (keyed : previous.Keyed)
    (currentKeyed : current.Keyed) (package name : String) :
    (∀ cls, previous.classIn? package name = some cls →
        ∃ found, current.classIn? package name = some found ∧
          ClassCompatible cls.item found.item) ∧
      (∀ cls, current.classIn? package name = some cls →
        ∃ found, previous.classIn? package name = some found ∧
          ClassCompatible cls.item found.item) ↔
      Option.Rel (fun cls cls' => SameClass cls.item cls'.item)
        (previous.classIn? package name) (current.classIn? package name) := by
  apply rel_both_ways_iff
  intro cls cls' found found'
  exact class_both_ways (classIn?_stored keyed found).1 (classIn?_stored currentKeyed found').1

/-- Neither of two comparisons finds anything just where the surface is the same. -/
theorem findings_both_ways {previous current : Api} (keyed : previous.Keyed)
    (currentKeyed : current.Keyed) :
    findings previous current = [] ∧ findings current previous = [] ↔
      SameSurface previous current := by
  rw [findings_eq_nil_iff keyed, findings_eq_nil_iff currentKeyed]
  constructor
  · rintro ⟨forth, back⟩
    apply SameSurface.of_classes
    intro package name
    apply (classIn?_both_ways keyed currentKeyed package name).mp
    exact ⟨forth package name, back package name⟩
  · intro surface
    have classes := fun package name =>
      (classIn?_both_ways keyed currentKeyed package name).mpr (surface.classes package name)
    exact ⟨fun package name => (classes package name).1,
      fun package name => (classes package name).2⟩

/-- Two APIs that can be compared are silent both ways just where they have the same surface. -/
theorem silent_both_ways_iff (first second : Api) (keyed : first.Keyed)
    (secondKeyed : second.Keyed) :
    (∃ forth back, first.compare second = .ok forth ∧ forth.findings = [] ∧
      second.compare first = .ok back ∧ back.findings = []) ↔
      first.nullMode = second.nullMode ∧ SameSurface first second := by
  rw [← findings_both_ways keyed secondKeyed]
  constructor
  · rintro ⟨forth, back, runForth, quietForth, runBack, quietBack⟩
    obtain ⟨modes, rfl⟩ := (Api.compare_eq_ok_iff _ _ _).mp runForth
    obtain ⟨_, rfl⟩ := (Api.compare_eq_ok_iff _ _ _).mp runBack
    exact ⟨modes, quietForth, quietBack⟩
  · rintro ⟨modes, quietForth, quietBack⟩
    exact ⟨_, _, (Api.compare_eq_ok_iff _ _ _).mpr ⟨modes, rfl⟩, quietForth,
      (Api.compare_eq_ok_iff _ _ _).mpr ⟨modes.symm, rfl⟩, quietBack⟩

def surfaceSample (visibility : Visibility) (superclass : Option TypeRef) (methodFinal : Bool)
    (value : Option String) (order : List Member → List Member) : Api where
  source := "api.txt"
  nullMode := .nullAware
  packages := .ofList [("p", {
    line := 1
    item := {
      name := "p"
      classes := .ofList [("C", {
        line := 2
        item := {
          name := "C"
          qualifiedName := "p.C"
          kind := .classKind
          modifiers := { visibility, isFinal := true }
          superclass
          members := .ofList ((order [
            .field { name := "X", type := { name := "int", nullness := .nonNull }, value },
            .method { name := "f", modifiers := { isFinal := methodFinal },
                      returnType := { name := "A", nullness := .nullable } }]).map
            fun item => (item.key, { line := 3, item })) } })] } })]

theorem silent_both_ways_surfaceSample :
    (surfaceSample .packageScope none false (some "1") id).Keyed ∧
    (surfaceSample .internalScope (some { name := "java.lang.Object" }) true none
      List.reverse).Keyed ∧
    (surfaceSample .packageScope none false (some "1") id).nullMode = .nullAware ∧
    SameSurface (surfaceSample .packageScope none false (some "1") id)
      (surfaceSample .internalScope (some { name := "java.lang.Object" }) true none
        List.reverse) := by
  obtain ⟨_, surface⟩ := (silent_both_ways_iff
    (surfaceSample .packageScope none false (some "1") id)
    (surfaceSample .internalScope (some { name := "java.lang.Object" }) true none List.reverse)
    (by decide) (by decide)).mp ⟨_, _, rfl, by decide, rfl, by decide⟩
  exact ⟨by decide, by decide, rfl, surface⟩

end Compare

end ApiCompat
