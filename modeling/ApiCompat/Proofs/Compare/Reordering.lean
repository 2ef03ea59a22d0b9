import ApiCompat.Proofs.Api.Same
import ApiCompat.Proofs.Api.Unplaced
import ApiCompat.Proofs.Compare.Equality
import ApiCompat.Proofs.Compare.Rules
import ApiCompat.Proofs.Ordered.Listing

/-!
# The order of findings

Equal APIs may store what they declare in different orders and read it from
different lines.  A comparison of equal APIs makes the same findings but for
their places (`Finding.unplaced`), and the order of the previous API alone
decides in which order they come.
-/

set_option autoImplicit false

namespace ApiCompat

/-! ## Orders of storage -/

/-- Two classes list their interfaces and members in the same order. -/
structure ClassDecl.SameOrder (cls other : ClassDecl) : Prop where
  interfaces : cls.interfaces.toList = other.interfaces.toList
  members : cls.members.keys = other.members.keys

/-- Two packages list their classes in the same order, and so does each class what it declares. -/
def Package.SameOrder (package other : Package) : Prop :=
  List.Forall₂ (fun entry entry' => entry.1 = entry'.1 ∧ entry.2.item.SameOrder entry'.2.item)
    package.classes.entries other.classes.entries

/-- Two APIs list their packages in the same order, and so does each package its classes. -/
def Api.SameOrder (api other : Api) : Prop :=
  List.Forall₂ (fun entry entry' => entry.1 = entry'.1 ∧ entry.2.item.SameOrder entry'.2.item)
    api.packages.entries other.packages.entries

instance (cls other : ClassDecl) : Decidable (cls.SameOrder other) :=
  decidable_of_iff (cls.interfaces.toList = other.interfaces.toList ∧
      cls.members.keys = other.members.keys)
    ⟨fun both => ⟨both.1, both.2⟩, fun order => ⟨order.interfaces, order.members⟩⟩

instance (package other : Package) : Decidable (package.SameOrder other) :=
  inferInstanceAs (Decidable (List.Forall₂
    (fun entry entry' => entry.1 = entry'.1 ∧ entry.2.item.SameOrder entry'.2.item)
    package.classes.entries other.classes.entries))

instance (api other : Api) : Decidable (api.SameOrder other) :=
  inferInstanceAs (Decidable (List.Forall₂
    (fun entry entry' => entry.1 = entry'.1 ∧ entry.2.item.SameOrder entry'.2.item)
    api.packages.entries other.packages.entries))

theorem Package.SameOrder.classes {package other : Package} (order : package.SameOrder other) :
    package.classes.keys = other.classes.keys ∧
      ∀ name cls cls', package.classes.get? name = some cls →
        other.classes.get? name = some cls' → cls.item.SameOrder cls'.item :=
  OrderedMap.ordered_of_entries order

theorem Api.SameOrder.packages {api other : Api} (order : api.SameOrder other) :
    api.packages.keys = other.packages.keys ∧
      ∀ name package package', api.packages.get? name = some package →
        other.packages.get? name = some package' → package.item.SameOrder package'.item :=
  OrderedMap.ordered_of_entries order

def Finding.unplaced (finding : Finding) : Finding :=
  { finding with location := { file := "", line := 0 } }

namespace Compare

/-! ## Findings without places -/

def Spot.unplaced (spot : Spot) : Spot := { spot with file := "", line := 0 }

section Rules

variable (spot : Spot)

@[simp] theorem Spot.unplaced_target : spot.unplaced.target = spot.target := rfl

@[simp] theorem unplaced_finding (issue : Issue) (message : String) :
    (spot.finding issue message).unplaced = spot.unplaced.finding issue message := rfl

@[simp] theorem unplaced_findingIf (condition : Bool) (issue : Issue) (message : String) :
    (spot.findingIf condition issue message).map Finding.unplaced =
      spot.unplaced.findingIf condition issue message := by
  cases condition <;> rfl

@[simp] theorem unplaced_scope (what : String) (was now : Modifiers) :
    (scopeFindings spot what was now).map Finding.unplaced =
      scopeFindings spot.unplaced what was now :=
  unplaced_findingIf spot _ _ _

@[simp] theorem unplaced_static (what : String) (was now : Modifiers) :
    (staticFindings spot what was now).map Finding.unplaced =
      staticFindings spot.unplaced what was now :=
  unplaced_findingIf spot _ _ _

@[simp] theorem unplaced_throws (what : String) (was now : List TypeRef) :
    (throwsFindings spot what was now).map Finding.unplaced =
      throwsFindings spot.unplaced what was now := by
  simp [throwsFindings, List.map_flatMap]

@[simp] theorem unplaced_nullness (subject position : String) (change : Option Regression) :
    (nullnessFindings spot subject position change).map Finding.unplaced =
      nullnessFindings spot.unplaced subject position change := by
  cases change <;> rfl

@[simp] theorem unplaced_parameters (owner : String) (was now : List Parameter) :
    (parameterFindings spot owner was now).map Finding.unplaced =
      parameterFindings spot.unplaced owner was now := by
  simp [parameterFindings, List.map_flatMap]

@[simp] theorem unplaced_value (was now : Option String) :
    (valueFindings spot was now).map Finding.unplaced = valueFindings spot.unplaced was now := by
  cases was <;> cases now <;> simp [valueFindings]

@[simp] theorem unplaced_superclass (was now : ClassDecl) :
    (superclassFindings spot was now).map Finding.unplaced =
      superclassFindings spot.unplaced was now :=
  unplaced_findingIf spot _ _ _

@[simp] theorem unplaced_interfaces (was now : ClassDecl) :
    (interfaceFindings spot was now).map Finding.unplaced =
      interfaceFindings spot.unplaced was now := by
  simp [interfaceFindings, List.map_flatMap]

@[simp] theorem unplaced_declaration (was now : ClassDecl) :
    (declarationFindings spot was now).map Finding.unplaced =
      declarationFindings spot.unplaced was now := by
  unfold declarationFindings shapeFindings
  split
  · cases now.kind == .classKind <;> simp
  · simp

end Rules

/-- Where a member stands shows in the places of its findings only. -/
theorem unplaced_member (file : String) (cls : ClassDecl) (was now : Located Member) :
    (memberFindings file cls was now).map Finding.unplaced =
      memberFindings "" cls was.unplaced now.unplaced := by
  obtain ⟨_, before⟩ := was
  obtain ⟨_, after⟩ := now
  cases before <;> cases after <;> try rfl
  case constructor.constructor before after =>
    simp [memberFindings, constructorFindings, Located.unplaced, Spot.unplaced]
  case method.method before after =>
    simp [memberFindings, methodFindings, Located.unplaced, Spot.unplaced,
      apply_ite (List.map Finding.unplaced)]
  case field.field before after =>
    simp [memberFindings, fieldFindings, Located.unplaced, Spot.unplaced]

theorem unplaced_removedMember (file : String) (cls : ClassDecl) (was : Located Member) :
    (removedMember file cls was).unplaced = removedMember "" cls was.unplaced := by
  obtain ⟨_, member⟩ := was
  cases member <;> rfl

/-! ## Comparing equal things -/

section Equal

variable {was was' now now' : ClassDecl}

theorem interfaceNames_rearranged (agrees : was.Agrees was') :
    Rearranged (was.SameOrder was') was.interfaceNames was'.interfaceNames := by
  have types : was.interfaces.toList.Perm was'.interfaces.toList :=
    (List.perm_ext_iff_of_nodup was.interfaces.distinct was'.interfaces.distinct).mpr
      agrees.interfaces
  have both : Rearranged (was.SameOrder was') was.interfaces.toList was'.interfaces.toList :=
    ⟨types, fun order => order.interfaces⟩
  exact both.map TypeRef.erasure

theorem interfaces_rearranged (spot : Spot) (old : was.Agrees was') (new : now.Agrees now') :
    Rearranged (was.SameOrder was') (interfaceFindings spot was now)
      (interfaceFindings spot was' now') := by
  have listed : ∀ name, now.interfaceNames.contains name = now'.interfaceNames.contains name := by
    intro name
    rw [Bool.eq_iff_iff, List.contains_iff_mem, List.contains_iff_mem]
    exact (interfaceNames_rearranged new).1.mem_iff
  have kept := (interfaceNames_rearranged old).flatMap fun interface =>
    spot.findingIf (!now.interfaceNames.contains interface) .removedInterface
      ("Class " ++ spot.target ++ " no longer implements " ++ interface)
  simpa only [interfaceFindings, listed] using kept

theorem declaration_rearranged (spot : Spot) (old : was.Agrees was') (new : now.Agrees now') :
    Rearranged (was.SameOrder was') (declarationFindings spot was now)
      (declarationFindings spot was' now') := by
  have parents : superclassFindings spot was now = superclassFindings spot was' now' := by
    simp only [superclassFindings, superclassName, old.superclass, new.superclass]
  simp only [declarationFindings, shapeFindings, old.kind, new.kind, old.modifiers,
    new.modifiers, parents]
  split
  · exact (rearranged_of_eq rfl).append (interfaces_rearranged spot old new)
  · exact rearranged_of_eq rfl

theorem memberOutcome_agrees (sources sources' : Sources) (old : was.Agrees was')
    (new : now.Agrees now') {member member' : Located Member} (same : member.item = member'.item) :
    (memberOutcome sources was now member).map Finding.unplaced =
      (memberOutcome sources' was' now' member').map Finding.unplaced := by
  have items : member.unplaced = member'.unplaced := by
    rw [Located.unplaced, same, Located.unplaced]
  have lookups := new.members member.item.key
  simp only [memberOutcome]
  rw [← same]
  generalize now.members.get? member.item.key = found,
    now'.members.get? member.item.key = found' at lookups
  cases lookups with
  | none =>
      simp only [List.map_cons, List.map_nil, unplaced_removedMember, items,
        removedMember_congr "" old.qualifiedName]
  | @some found found' both =>
      have founds : found.unplaced = found'.unplaced := by
        rw [Located.unplaced, both, Located.unplaced]
      rw [unplaced_member, unplaced_member, items, founds, memberFindings_congr ""
        new.qualifiedName (congrArg Modifiers.isFinal new.modifiers)]

end Equal

theorem classFindings_rearranged (sources sources' : Sources)
    {was was' now now' : Located ClassDecl} (old : was.item.Agrees was'.item)
    (new : now.item.Agrees now'.item) :
    Rearranged (was.item.SameOrder was'.item)
      ((classFindings sources was now).map Finding.unplaced)
      ((classFindings sources' was' now').map Finding.unplaced) := by
  simp only [classFindings, List.map_append, unplaced_declaration, List.map_flatMap]
  refine Rearranged.append ?_ ?_
  · simp only [Spot.unplaced, ← new.qualifiedName]
    exact declaration_rearranged _ old new
  · refine OrderedMap.rearranged_flatMap old.members (fun order => order.members) ?_
    intro _ member member' _ _ same
    exact rearranged_of_eq (memberOutcome_agrees sources sources' old new same)

theorem classOutcome_rearranged (sources sources' : Sources) {package package' : Package}
    (packages : package.same package' = true) {was was' : Located ClassDecl}
    (old : was.item.Agrees was'.item) :
    Rearranged (was.item.SameOrder was'.item)
      ((classOutcome sources package was).map Finding.unplaced)
      ((classOutcome sources' package' was').map Finding.unplaced) := by
  simp only [Package.same, Bool.and_eq_true] at packages
  have lookups := OrderedMap.rel_of_sameEntries packages.2 was.item.name
  simp only [classOutcome, ← old.name]
  generalize package.classes.get? was.item.name = found,
    package'.classes.get? was.item.name = found' at lookups
  cases lookups with
  | none =>
      apply rearranged_of_eq
      simp [removedClass, Finding.unplaced, Finding.warning, old.kind, old.qualifiedName]
  | some both => exact classFindings_rearranged sources sources' old (ClassDecl.agrees_of_same both)

theorem packageOutcome_rearranged (sources sources' : Sources) {current current' : Api}
    (sameCurrent : current.same current' = true) {was was' : Located Package}
    (old : was.item.same was'.item = true) :
    Rearranged (was.item.SameOrder was'.item)
      ((packageOutcome sources current was).map Finding.unplaced)
      ((packageOutcome sources' current' was').map Finding.unplaced) := by
  simp only [Api.same, Bool.and_eq_true] at sameCurrent
  simp only [Package.same, Bool.and_eq_true, beq_iff_eq] at old
  obtain ⟨names, classes⟩ := old
  have lookups := OrderedMap.rel_of_sameEntries sameCurrent.2 was.item.name
  simp only [packageOutcome, ← names]
  generalize current.packages.get? was.item.name = found,
    current'.packages.get? was.item.name = found' at lookups
  cases lookups with
  | none =>
      have sizes : was.item.classes.size = was'.item.classes.size := by
        simp only [OrderedMap.sameEntries, Bool.and_eq_true, beq_iff_eq] at classes
        exact classes.1
      have empty : was.item.classes.isEmpty = was'.item.classes.isEmpty := by
        rw [Bool.eq_iff_iff, OrderedMap.isEmpty, OrderedMap.isEmpty, List.isEmpty_iff_length_eq_zero,
          List.isEmpty_iff_length_eq_zero]
        exact Eq.congr_left sizes
      apply rearranged_of_eq
      cases filled : was.item.classes.isEmpty <;>
        simp [filled, ← empty, Finding.unplaced, Finding.warning]
  | some both =>
      simp only [List.map_flatMap]
      refine OrderedMap.rearranged_flatMap (OrderedMap.rel_of_sameEntries classes)
        (fun order => order.classes.1) ?_
      intro name cls cls' stored stored' same
      refine (classOutcome_rearranged sources sources' both
        (ClassDecl.agrees_of_same same)).mono fun order => ?_
      exact order.classes.2 name cls cls' stored stored'

theorem findings_rearranged {previous previous' current current' : Api}
    (samePrevious : previous.same previous' = true) (sameCurrent : current.same current' = true) :
    Rearranged (previous.SameOrder previous')
      ((findings previous current).map Finding.unplaced)
      ((findings previous' current').map Finding.unplaced) := by
  simp only [Api.same, Bool.and_eq_true] at samePrevious
  rw [findings, findings, List.map_flatMap, List.map_flatMap]
  refine OrderedMap.rearranged_flatMap (OrderedMap.rel_of_sameEntries samePrevious.2)
    (fun order => order.packages.1) ?_
  intro name package package' stored stored' same
  refine (packageOutcome_rearranged _ _ sameCurrent same).mono fun order => ?_
  exact order.packages.2 name package package' stored stored'

/-- Equal APIs are refused alike or compared alike: the findings are the same but for their places
and their order, and come in the same order if the previous APIs store what they declare in one. -/
theorem compare_reordered (previous previous' current current' : Api)
    (samePrevious : previous.same previous' = true) (sameCurrent : current.same current' = true) :
    (∃ mismatch, previous.compare current = .error mismatch ∧
      previous'.compare current' = .error mismatch) ∨
    ∃ report report', previous.compare current = .ok report ∧
      previous'.compare current' = .ok report' ∧
      (report'.findings.map Finding.unplaced).Perm (report.findings.map Finding.unplaced) ∧
      (previous.SameOrder previous' →
        report'.findings.map Finding.unplaced = report.findings.map Finding.unplaced) := by
  have rearranged := findings_rearranged samePrevious sameCurrent
  have modes : previous.nullMode = previous'.nullMode ∧ current.nullMode = current'.nullMode := by
    simp only [Api.same, Bool.and_eq_true, beq_iff_eq] at samePrevious sameCurrent
    exact ⟨samePrevious.1, sameCurrent.1⟩
  by_cases agree : previous.nullMode = current.nullMode
  · have agree' : previous'.nullMode = current'.nullMode := by
      rw [← modes.1, ← modes.2]
      exact agree
    refine .inr ⟨_, _, if_pos agree, if_pos agree', rearranged.1.symm, ?_⟩
    exact fun order => (rearranged.2 order).symm
  · have agree' : ¬previous'.nullMode = current'.nullMode := by
      rw [← modes.1, ← modes.2]
      exact agree
    refine .inl ⟨_, if_neg agree, ?_⟩
    rw [modes.1, modes.2]
    exact if_neg agree'

/-- Of the two packages with a class each, one package without an interface and without members. -/
def thinnedSample : Api where
  source := "thin.txt"
  nullMode := .nullAware
  packages := .ofList [("p", {
    line := 2
    item := {
      name := "p"
      classes := .ofList [("C", {
        line := 3
        item := { name := "C", qualifiedName := "p.C", kind := .interfaceKind } })] } })]

/-- The findings come in another order where the previous API is stored backwards. -/
theorem compare_reordered_thinnedSample :
    (storedSample "old.txt" 1 false).same (storedSample "new.txt" 7 true) = true ∧
    thinnedSample.same thinnedSample = true ∧
    ((∃ mismatch, (storedSample "old.txt" 1 false).compare thinnedSample = .error mismatch ∧
        (storedSample "new.txt" 7 true).compare thinnedSample = .error mismatch) ∨
      ∃ report report', (storedSample "old.txt" 1 false).compare thinnedSample = .ok report ∧
        (storedSample "new.txt" 7 true).compare thinnedSample = .ok report' ∧
        (report'.findings.map Finding.unplaced).Perm (report.findings.map Finding.unplaced) ∧
        ((storedSample "old.txt" 1 false).SameOrder (storedSample "new.txt" 7 true) →
          report'.findings.map Finding.unplaced = report.findings.map Finding.unplaced)) ∧
    (findings (storedSample "old.txt" 1 false) thinnedSample).length = 5 ∧
    (findings (storedSample "old.txt" 1 false) thinnedSample).map Finding.unplaced ≠
      (findings (storedSample "new.txt" 7 true) thinnedSample).map Finding.unplaced :=
  ⟨by decide, by decide, compare_reordered _ _ _ _ (by decide) (by decide), by decide, by decide⟩

end Compare

end ApiCompat
