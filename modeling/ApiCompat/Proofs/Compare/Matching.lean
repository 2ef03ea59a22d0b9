import ApiCompat.Proofs.Api.Keyed
import ApiCompat.Proofs.Compare.Silence

/-!
# What a silent comparison says about lookups

If a comparison finds nothing, every class and member of the previous API is
found in the current one and changed compatibly (`silent_class`).  Members
found under one key are of one kind and have equally many parameters.
-/

set_option autoImplicit false

namespace ApiCompat

/-- The member stored under a key in a class of an API. -/
def Api.memberIn? (api : Api) (package name : String) (key : MemberKey) :
    Option (Located Member) :=
  (api.classIn? package name).bind fun cls => cls.item.members.get? key

theorem erasures_length {was now : List Parameter} (same : erasures was = erasures now) :
    was.length = now.length := by
  have lengths := congrArg List.length same
  simpa [erasures] using lengths

namespace Compare

def MemberCompatible (cls : ClassDecl) : Member → Member → Prop
  | .constructor was, .constructor now => ConstructorCompatible was now
  | .method was, .method now => MethodCompatible cls was now
  | .field was, .field now => FieldCompatible was now
  | _, _ => True

theorem memberFindings_eq_nil (file : String) (cls : ClassDecl) (was now : Located Member) :
    memberFindings file cls was now = [] ↔ MemberCompatible cls was.item now.item := by
  obtain ⟨_, before⟩ := was
  obtain ⟨_, after⟩ := now
  cases before <;> cases after <;>
    simp [memberFindings, MemberCompatible, constructorFindings_eq_nil, methodFindings_eq_nil,
      fieldFindings_eq_nil]

theorem memberOutcome_eq_nil (sources : Sources) (was now : ClassDecl) (member : Located Member) :
    memberOutcome sources was now member = [] ↔
      ∃ found, now.members.get? member.item.key = some found ∧
        MemberCompatible now member.item found.item := by
  cases found : now.members.get? member.item.key <;>
    simp [memberOutcome, found, memberFindings_eq_nil]

theorem classFindings_eq_nil (sources : Sources) (was now : Located ClassDecl) :
    classFindings sources was now = [] ↔
      DeclarationCompatible was.item now.item ∧
        ∀ member ∈ was.item.members.values,
          ∃ found, now.item.members.get? member.item.key = some found ∧
            MemberCompatible now.item member.item found.item := by
  simp only [classFindings, List.append_eq_nil_iff, declarationFindings_eq_nil,
    List.flatMap_eq_nil_iff, memberOutcome_eq_nil]

theorem classOutcome_eq_nil (sources : Sources) (now : Package) (was : Located ClassDecl) :
    classOutcome sources now was = [] ↔
      ∃ found, now.classes.get? was.item.name = some found ∧
        classFindings sources was found = [] := by
  cases found : now.classes.get? was.item.name <;> simp [classOutcome, found]

/-- Nothing found: a class of the previous API is in the current one, its declaration is
compatible, and so is each of its members. -/
theorem silent_class {previous current : Api} (silent : findings previous current = [])
    {package : Located Package} (packageStored : package ∈ previous.packages.values)
    {cls : Located ClassDecl} (classStored : cls ∈ package.item.classes.values) :
    ∃ foundPackage found, current.packages.get? package.item.name = some foundPackage ∧
      foundPackage.item.classes.get? cls.item.name = some found ∧
      DeclarationCompatible cls.item found.item ∧
      ∀ member ∈ cls.item.members.values,
        ∃ foundMember, found.item.members.get? member.item.key = some foundMember ∧
          MemberCompatible found.item member.item foundMember.item := by
  have outcome := List.flatMap_eq_nil_iff.mp silent package packageStored
  cases lookup : current.packages.get? package.item.name with
  | none =>
      have filled : package.item.classes.isEmpty = false := by
        cases classes : package.item.classes.isEmpty with
        | false => rfl
        | true =>
            have none : package.item.classes.entries = [] := List.isEmpty_iff.mp classes
            simp [OrderedMap.values, none] at classStored
      simp [packageOutcome, lookup, filled] at outcome
  | some foundPackage =>
      simp only [packageOutcome, lookup, List.flatMap_eq_nil_iff] at outcome
      obtain ⟨found, inPackage, quiet⟩ := (classOutcome_eq_nil _ _ _).mp (outcome cls classStored)
      obtain ⟨declaration, members⟩ := (classFindings_eq_nil _ _ _).mp quiet
      exact ⟨foundPackage, found, rfl, inPackage, declaration, members⟩

end Compare

theorem Api.compare_eq_ok_iff (previous current : Api) (report : Report) :
    previous.compare current = .ok report ↔
      previous.nullMode = current.nullMode ∧
        report = Report.ofFindings previous.source current.source
          (Compare.findings previous current) := by
  by_cases modes : previous.nullMode = current.nullMode
  · simp [Api.compare, modes, eq_comm]
  · simp [Api.compare, modes]

end ApiCompat
