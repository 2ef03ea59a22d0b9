import ApiCompat.Proofs.Compare.Matching

/-!
# Composing silent comparisons

If nothing is found between a first and a second API, nor between the second
and a third, little can be found between the first and the third.  Every rule
is a preorder but two.  A value that the second API leaves out is compared with
nothing (`ValueGap`), and a method that became final inside a final class is
noticed once the class is open again (`FinalGap`).
-/

set_option autoImplicit false

namespace ApiCompat.Compare

/-- The finding that a constant value changed, about a field with a value in the first and the
third API and none in the second. -/
def ValueGap (first second third : Api) (finding : Finding) : Prop :=
  finding.issue = .changedValue ∧ finding.code = 17 ∧
    ∃ (package name : String) (key : MemberKey) (was between now : Located Member)
      (before middle after : Field),
      first.memberIn? package name key = some was ∧ was.item = .field before ∧
      second.memberIn? package name key = some between ∧ between.item = .field middle ∧
      third.memberIn? package name key = some now ∧ now.item = .field after ∧
      before.value.isSome = true ∧ middle.value = none ∧ after.value.isSome = true ∧
      finding.location = { file := third.source, line := now.line }

/-- The finding that a method became final, about a method that is final in the second API, whose
class is final there and not in the third. -/
def FinalGap (first second third : Api) (finding : Finding) : Prop :=
  finding.issue = .changedFinal ∧ finding.code = 13 ∧
    ∃ (package name : String) (key : MemberKey) (was between now : Located Member)
      (before middle after : Method) (closed opened : Located ClassDecl),
      first.memberIn? package name key = some was ∧ was.item = .method before ∧
      second.memberIn? package name key = some between ∧ between.item = .method middle ∧
      third.memberIn? package name key = some now ∧ now.item = .method after ∧
      second.classIn? package name = some closed ∧ third.classIn? package name = some opened ∧
      middle.modifiers.isFinal = true ∧ closed.item.modifiers.isFinal = true ∧
      opened.item.modifiers.isFinal = false ∧
      finding.location = { file := third.source, line := now.line }

/-! ## Rules that compose -/

theorem regression?_trans {first second third : Nullness} {position : Position}
    (earlier : regression? first second position = none)
    (later : regression? second third position = none) :
    regression? first third position = none := by
  cases first <;> cases second <;> cases third <;> cases position <;>
    simp_all [regression?]

theorem ParametersCompatible.trans {first second third : List Parameter}
    (aligned : first.length = second.length) (earlier : ParametersCompatible first second)
    (later : ParametersCompatible second third) : ParametersCompatible first third := by
  induction first generalizing second third with
  | nil => simp [ParametersCompatible]
  | cons before rest ih =>
      cases second with
      | nil => simp at aligned
      | cons middle rest' =>
          cases third with
          | nil => simp [ParametersCompatible]
          | cons after rest'' =>
              simp only [ParametersCompatible, List.zip_cons_cons, List.forall_mem_cons]
                at earlier later ⊢
              have lengths : rest.length = rest'.length := by simpa using aligned
              exact ⟨regression?_trans earlier.1 later.1, ih lengths earlier.2 later.2⟩

theorem ThrowsCompatible.trans {first second third : List TypeRef}
    (earlier : ThrowsCompatible first second) (later : ThrowsCompatible second third) :
    ThrowsCompatible first third := by
  intro thrown member
  obtain ⟨middle, stored, same⟩ := List.mem_map.mp (later thrown member)
  rw [← same]
  exact earlier middle stored

theorem ConstructorCompatible.trans {first second third : Constructor}
    (aligned : first.parameters.length = second.parameters.length)
    (earlier : ConstructorCompatible first second)
    (later : ConstructorCompatible second third) : ConstructorCompatible first third where
  scope := Nat.le_trans earlier.scope later.scope
  throws := earlier.throws.trans later.throws
  parameters := earlier.parameters.trans aligned later.parameters

theorem DeclarationCompatible.trans {first second third : ClassDecl}
    (earlier : DeclarationCompatible first second)
    (later : DeclarationCompatible second third) : DeclarationCompatible first third where
  kind := earlier.kind.trans later.kind
  scope := Nat.le_trans earlier.scope later.scope
  static := earlier.static.trans later.static
  final := fun open_ => later.final (earlier.final open_)
  abstract := fun isClass concrete =>
    later.abstract isClass (earlier.abstract (later.kind.trans isClass) concrete)
  superclass := fun isClass =>
    (earlier.superclass (later.kind.trans isClass)).trans (later.superclass isClass)
  interfaces := fun interface member =>
    later.interfaces interface (earlier.interfaces interface member)

/-! ## Rules that compose up to a gap -/

/-- Of a method only the rule on `final` can fail to compose. -/
theorem methodFindings_compose {file : String} {line : Nat} {middleClass cls : ClassDecl}
    {first second third : Method} {finding : Finding}
    (aligned : first.parameters.length = second.parameters.length)
    (earlier : MethodCompatible middleClass first second)
    (later : MethodCompatible cls second third)
    (member : finding ∈ methodFindings file line cls first third) :
    finding.issue = .changedFinal ∧ finding.code = 13 ∧ finding.location = { file, line } ∧
      second.modifiers.isFinal = true ∧ middleClass.modifiers.isFinal = true ∧
      cls.modifiers.isFinal = false := by
  have scope := Nat.le_trans earlier.scope later.scope
  have static := earlier.static.trans later.static
  have abstract := fun concrete => later.abstract (earlier.abstract concrete)
  have type := TypeRef.sameShape_trans earlier.returnType later.returnType
  have throws := earlier.throws.trans later.throws
  have result : third.returnType.isVoid = false →
      regression? first.returnType.nullness third.returnType.nullness .result = none := by
    intro full
    have middle : second.returnType.isVoid = false := by
      rw [TypeRef.isVoid_of_sameShape later.returnType]
      exact full
    exact regression?_trans (earlier.result middle) (later.result full)
  have parameters := earlier.parameters.trans aligned later.parameters
  simp only [methodFindings, List.mem_append] at member
  rcases member with ((((((seen | fixed) | final) | made) | typed) | thrown) | marked) | passed
  · rw [(scopeFindings_eq_nil _ _ _ _).mpr scope] at seen
    cases seen
  · rw [(staticFindings_eq_nil _ _ _ _).mpr static] at fixed
    cases fixed
  · obtain ⟨condition, rfl⟩ := (Spot.mem_findingIf _ _ _ _ _).mp final
    simp only [Bool.and_eq_true, Bool.not_eq_true'] at condition
    obtain ⟨⟨wasOpen, nowFinal⟩, classOpen⟩ := condition
    have middleFinal : second.modifiers.isFinal = true := by
      cases middle : second.modifiers.isFinal with
      | true => rfl
      | false =>
          have closed := later.final middle nowFinal
          rw [classOpen] at closed
          cases closed
    exact ⟨rfl, rfl, rfl, middleFinal, earlier.final wasOpen middleFinal, classOpen⟩
  · cases before : first.modifiers.isAbstract with
    | true => simp [Spot.findingIf, before] at made
    | false => simp [Spot.findingIf, abstract before] at made
  · simp [Spot.findingIf, type] at typed
  · rw [(throwsFindings_eq_nil _ _ _ _).mpr throws] at thrown
    cases thrown
  · cases void : third.returnType.isVoid with
    | true => simp [void] at marked
    | false => simp [void, result void, nullnessFindings] at marked
  · rw [(parameterFindings_eq_nil _ _ _ _).mpr parameters] at passed
    cases passed

/-- Of a field only the rule on values can fail to compose. -/
theorem fieldFindings_compose {file : String} {line : Nat} {cls : ClassDecl}
    {first second third : Field} {finding : Finding} (earlier : FieldCompatible first second)
    (later : FieldCompatible second third)
    (member : finding ∈ fieldFindings file line cls first third) :
    finding.issue = .changedValue ∧ finding.code = 17 ∧ finding.location = { file, line } ∧
      first.value.isSome = true ∧ second.value = none ∧ third.value.isSome = true := by
  have scope := Nat.le_trans earlier.scope later.scope
  have static := earlier.static.trans later.static
  have final := fun open_ => later.final (earlier.final open_)
  have type := TypeRef.sameShape_trans earlier.type later.type
  have nullness := regression?_trans earlier.nullness later.nullness
  simp only [fieldFindings, List.mem_append] at member
  rcases member with ((((seen | fixed) | closed) | typed) | valued) | marked
  · rw [(scopeFindings_eq_nil _ _ _ _).mpr scope] at seen
    cases seen
  · rw [(staticFindings_eq_nil _ _ _ _).mpr static] at fixed
    cases fixed
  · cases before : first.modifiers.isFinal with
    | true => simp [Spot.findingIf, before] at closed
    | false => simp [Spot.findingIf, final before] at closed
  · simp [Spot.findingIf, type] at typed
  · cases before : first.value with
    | none => simp [valueFindings, before] at valued
    | some old =>
        cases after : third.value with
        | none => simp [valueFindings, before, after] at valued
        | some new =>
            simp only [valueFindings, before, after] at valued
            obtain ⟨differ, rfl⟩ := (Spot.mem_findingIf _ _ _ _ _).mp valued
            refine ⟨rfl, rfl, rfl, rfl, ?_, rfl⟩
            cases middle : second.value with
            | none => rfl
            | some kept =>
                have whole :=
                  (earlier.value old kept before middle).trans (later.value kept new middle after)
                simp [whole] at differ
  · rw [(nullnessFindings_eq_nil _ _ _ _).mpr nullness] at marked
    cases marked

/-- A member of one key in three classes, compatible from the first to the second and from the
second to the third. -/
theorem memberFindings_compose {file : String} {middleClass cls : ClassDecl}
    {was between now : Located Member} {finding : Finding}
    (sameKey : between.item.key = was.item.key)
    (earlier : MemberCompatible middleClass was.item between.item)
    (later : MemberCompatible cls between.item now.item)
    (member : finding ∈ memberFindings file cls was now) :
    (∃ before middle after : Field, was.item = .field before ∧ between.item = .field middle ∧
      now.item = .field after ∧ finding.issue = .changedValue ∧ finding.code = 17 ∧
      finding.location = { file, line := now.line } ∧
      before.value.isSome = true ∧ middle.value = none ∧ after.value.isSome = true) ∨
    (∃ before middle after : Method, was.item = .method before ∧ between.item = .method middle ∧
      now.item = .method after ∧ finding.issue = .changedFinal ∧ finding.code = 13 ∧
      finding.location = { file, line := now.line } ∧
      middle.modifiers.isFinal = true ∧ middleClass.modifiers.isFinal = true ∧
      cls.modifiers.isFinal = false) := by
  obtain ⟨_, before⟩ := was
  obtain ⟨_, middle⟩ := between
  obtain ⟨line, after⟩ := now
  -- The keys of the first two tell the kind; a third of another kind is compared with nothing.
  cases before with
  | constructor before =>
      cases middle <;> simp only [Member.key, reduceCtorEq] at sameKey
      cases after <;> simp only [memberFindings, List.not_mem_nil] at member
      next middle after =>
        have aligned : before.parameters.length = middle.parameters.length :=
          erasures_length (MemberKey.constructor.inj sameKey).symm
        have compatible := ConstructorCompatible.trans aligned earlier later
        rw [(constructorFindings_eq_nil _ _ _ _ _).mpr compatible] at member
        cases member
  | method before =>
      cases middle <;> simp only [Member.key, reduceCtorEq] at sameKey
      cases after <;> simp only [memberFindings, List.not_mem_nil] at member
      next middle after =>
        have aligned : before.parameters.length = middle.parameters.length :=
          erasures_length (MemberKey.method.inj sameKey).2.symm
        obtain ⟨issue, code, location, final⟩ :=
          methodFindings_compose aligned earlier later member
        exact .inr ⟨before, middle, after, rfl, rfl, rfl, issue, code, location, final⟩
  | field before =>
      cases middle <;> simp only [Member.key, reduceCtorEq] at sameKey
      cases after <;> simp only [memberFindings, List.not_mem_nil] at member
      next middle after =>
        obtain ⟨issue, code, location, values⟩ := fieldFindings_compose earlier later member
        exact .inl ⟨before, middle, after, rfl, rfl, rfl, issue, code, location, values⟩

/-! ## Whole comparisons -/

/-- A class of the first API, followed through two silent comparisons. -/
theorem silent_chain {first second third : Api} (secondKeyed : second.Keyed)
    (earlier : findings first second = []) (later : findings second third = [])
    {package : Located Package} (packageStored : package ∈ first.packages.values)
    {cls : Located ClassDecl} (classStored : cls ∈ package.item.classes.values) :
    ∃ middlePackage middle lastPackage last,
      second.packages.get? package.item.name = some middlePackage ∧
      middlePackage.item.classes.get? cls.item.name = some middle ∧
      third.packages.get? package.item.name = some lastPackage ∧
      lastPackage.item.classes.get? cls.item.name = some last ∧
      DeclarationCompatible cls.item middle.item ∧
      DeclarationCompatible middle.item last.item ∧
      ∀ member ∈ cls.item.members.values, ∃ between now,
        middle.item.members.get? member.item.key = some between ∧
        last.item.members.get? member.item.key = some now ∧
        between.item.key = member.item.key ∧
        MemberCompatible middle.item member.item between.item ∧
        MemberCompatible last.item between.item now.item := by
  obtain ⟨middlePackage, middle, packageFound, classFound, declaration, members⟩ :=
    silent_class earlier packageStored classStored
  obtain ⟨packageName, packageKeyed⟩ := secondKeyed.name_of_get? packageFound
  obtain ⟨className, classKeyed⟩ := packageKeyed.name_of_get? classFound
  have middlePackageStored := OrderedMap.mem_values_of_get? packageFound
  have middleStored := OrderedMap.mem_values_of_get? classFound
  obtain ⟨lastPackage, last, packageFound', classFound', declaration', members'⟩ :=
    silent_class later middlePackageStored middleStored
  rw [packageName] at packageFound'
  rw [className] at classFound'
  refine ⟨middlePackage, middle, lastPackage, last, packageFound, classFound, packageFound',
    classFound', declaration, declaration', ?_⟩
  intro member stored
  obtain ⟨between, found, compatible⟩ := members member stored
  have sameKey := classKeyed.key_of_get? found
  have betweenStored := OrderedMap.mem_values_of_get? found
  obtain ⟨now, found', compatible'⟩ := members' between betweenStored
  rw [sameKey] at found'
  exact ⟨between, now, found, found', sameKey, compatible, compatible'⟩

/-- Behind two silent comparisons only members are reported, and each is in all three APIs. -/
theorem mem_findings_chain {first second third : Api} (firstKeyed : first.Keyed)
    (secondKeyed : second.Keyed) (earlier : findings first second = [])
    (later : findings second third = []) {finding : Finding}
    (member : finding ∈ findings first third) :
    ∃ (package name : String) (was between now : Located Member) (middle last : Located ClassDecl),
      first.memberIn? package name was.item.key = some was ∧
      second.memberIn? package name was.item.key = some between ∧
      third.memberIn? package name was.item.key = some now ∧
      second.classIn? package name = some middle ∧ third.classIn? package name = some last ∧
      between.item.key = was.item.key ∧
      MemberCompatible middle.item was.item between.item ∧
      MemberCompatible last.item between.item now.item ∧
      finding ∈ memberFindings third.source last.item was now := by
  obtain ⟨package, packageStored, inPackage⟩ := List.mem_flatMap.mp member
  have packageLookup := firstKeyed.get?_name packageStored
  have packageKeyed := (firstKeyed.name_of_get? packageLookup).2
  cases lookup : third.packages.get? package.item.name with
  | none =>
      -- A class of the package would have been found in the second and in the third API.
      simp only [packageOutcome, lookup] at inPackage
      split at inPackage
      · cases inPackage
      · next filled =>
          cases classes : package.item.classes.values with
          | nil =>
              have none := List.map_eq_nil_iff.mp classes
              simp [OrderedMap.isEmpty, none] at filled
          | cons cls rest =>
              have stored : cls ∈ package.item.classes.values := by simp [classes]
              obtain ⟨_, _, _, _, _, _, found, _⟩ :=
                silent_chain secondKeyed earlier later packageStored stored
              rw [lookup] at found
              cases found
  | some lastPackage =>
      simp only [packageOutcome, lookup] at inPackage
      obtain ⟨cls, classStored, inClass⟩ := List.mem_flatMap.mp inPackage
      have classLookup := packageKeyed.get?_name classStored
      have classKeyed := (packageKeyed.name_of_get? classLookup).2
      obtain ⟨middlePackage, middle, lastPackage', last, packageFound, classFound, packageFound',
        classFound', declaration, declaration', members⟩ :=
          silent_chain secondKeyed earlier later packageStored classStored
      obtain rfl : lastPackage = lastPackage' := by
        rw [lookup] at packageFound'
        exact Option.some.inj packageFound'
      simp only [classOutcome, classFound', classFindings,
        (declarationFindings_eq_nil _ _ _).mpr (declaration.trans declaration'),
        List.nil_append] at inClass
      obtain ⟨was, stored, inMember⟩ := List.mem_flatMap.mp inClass
      obtain ⟨between, now, found, found', sameKey, compatible, compatible'⟩ := members was stored
      simp only [memberOutcome, found'] at inMember
      have firstMember :
          first.memberIn? package.item.name cls.item.name was.item.key = some was := by
        simp [Api.memberIn?, Api.classIn?, packageLookup, classLookup, classKeyed.get?_key stored]
      have secondClass : second.classIn? package.item.name cls.item.name = some middle := by
        simp [Api.classIn?, packageFound, classFound]
      have thirdClass : third.classIn? package.item.name cls.item.name = some last := by
        simp [Api.classIn?, lookup, classFound']
      have secondMember :
          second.memberIn? package.item.name cls.item.name was.item.key = some between := by
        simp [Api.memberIn?, secondClass, found]
      have thirdMember :
          third.memberIn? package.item.name cls.item.name was.item.key = some now := by
        simp [Api.memberIn?, thirdClass, found']
      exact ⟨_, _, was, between, now, middle, last, firstMember, secondMember, thirdMember,
        secondClass, thirdClass, sameKey, compatible, compatible', inMember⟩

theorem findings_compose {first second third : Api} (firstKeyed : first.Keyed)
    (secondKeyed : second.Keyed) (earlier : findings first second = [])
    (later : findings second third = []) {finding : Finding}
    (member : finding ∈ findings first third) :
    ValueGap first second third finding ∨ FinalGap first second third finding := by
  obtain ⟨package, name, was, between, now, middle, last, firstMember, secondMember, thirdMember,
    secondClass, thirdClass, sameKey, compatible, compatible', inMember⟩ :=
      mem_findings_chain firstKeyed secondKeyed earlier later member
  rcases memberFindings_compose sameKey compatible compatible' inMember with
    ⟨before, middleField, after, isBefore, isMiddle, isAfter, issue, code, location, values⟩ |
    ⟨before, middleMethod, after, isBefore, isMiddle, isAfter, issue, code, location, finals⟩
  · exact .inl ⟨issue, code, _, _, _, was, between, now, before, middleField, after,
      firstMember, isBefore, secondMember, isMiddle, thirdMember, isAfter, values.1, values.2.1,
      values.2.2, location⟩
  · exact .inr ⟨issue, code, _, _, _, was, between, now, before, middleMethod, after, middle,
      last, firstMember, isBefore, secondMember, isMiddle, thirdMember, isAfter, secondClass,
      thirdClass, finals.1, finals.2.1, finals.2.2, location⟩

/-- Silent comparisons compose, but for values left out in between and methods that hid behind a
final class. -/
theorem compare_silent_trans (first second third : Api) (firstKeyed : first.Keyed)
    (secondKeyed : second.Keyed) (earlier later : Report)
    (runEarlier : first.compare second = .ok earlier) (quietEarlier : earlier.findings = [])
    (runLater : second.compare third = .ok later) (quietLater : later.findings = []) :
    ∃ report, first.compare third = .ok report ∧
      ∀ finding ∈ report.findings,
        ValueGap first second third finding ∨ FinalGap first second third finding := by
  obtain ⟨modes, rfl⟩ := (Api.compare_eq_ok_iff _ _ _).mp runEarlier
  obtain ⟨modes', rfl⟩ := (Api.compare_eq_ok_iff _ _ _).mp runLater
  refine ⟨_, (Api.compare_eq_ok_iff _ _ _).mpr ⟨modes.trans modes', rfl⟩, ?_⟩
  intro finding member
  exact findings_compose firstKeyed secondKeyed quietEarlier quietLater member

/-- An API with one constant and one method, for closed checks of the gaps. -/
def gapSample (value : Option String) (classFinal methodFinal : Bool) : Api where
  source := "api.txt"
  nullMode := .legacy
  packages := .ofList [("p", {
    line := 1
    item := {
      name := "p"
      classes := .ofList [("C", {
        line := 2
        item := {
          name := "C"
          qualifiedName := "p.C"
          kind := .classKind
          modifiers := { isFinal := classFinal }
          members := .ofList [
            (.field "X", {
              line := 3
              item := .field { name := "X", type := { name := "int" }, value } }),
            (.method "f" [], {
              line := 4
              item := .method { name := "f", modifiers := { isFinal := methodFinal },
                                returnType := { name := "void" } } })] } })] } })]

theorem compare_silent_trans_gapSample :
    ∃ report,
      (gapSample (some "1") true false).compare (gapSample (some "2") false true) = .ok report ∧
      report.codes = [17, 13] ∧
      ∀ finding ∈ report.findings,
        ValueGap (gapSample (some "1") true false) (gapSample none true true)
          (gapSample (some "2") false true) finding ∨
        FinalGap (gapSample (some "1") true false) (gapSample none true true)
          (gapSample (some "2") false true) finding := by
  obtain ⟨report, run, gaps⟩ := compare_silent_trans (gapSample (some "1") true false)
    (gapSample none true true) (gapSample (some "2") false true) (by decide) (by decide)
    _ _ rfl (by decide) rfl (by decide)
  have same := ((Api.compare_eq_ok_iff _ _ _).mp run).2
  exact ⟨report, run, by rw [same]; decide, gaps⟩

end ApiCompat.Compare
