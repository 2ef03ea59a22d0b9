import ApiCompat.Proofs.Api.Same
import ApiCompat.Proofs.Compare.Surface

/-!
# Comparing equal APIs

Equal APIs have the same surface, in whatever order they store what they
declare, so a comparison of one with the other finds nothing.
-/

set_option autoImplicit false

namespace ApiCompat.Compare

theorem sameMember_refl (closed : Bool) (member : Member) : SameMember closed member member := by
  cases member with
  | constructor item =>
      exact { scope := rfl, throws := fun _ => Iff.rfl, parameters := rfl }
  | method item =>
      exact {
        scope := rfl
        static := rfl
        final := fun _ => rfl
        abstract := rfl
        returnType := TypeRef.sameShape_refl _
        throws := fun _ => Iff.rfl
        result := fun _ => rfl
        parameters := rfl }
  | field item =>
      exact {
        scope := rfl
        static := rfl
        final := rfl
        type := TypeRef.sameShape_refl _
        value := fun _ _ was now => Option.some.inj (was.symm.trans now)
        nullness := rfl }

theorem sameClass_of_agrees {was now : ClassDecl} (agrees : was.Agrees now) :
    SameClass was now := by
  have parents : superclassName was = superclassName now := by
    rw [superclassName, superclassName, agrees.superclass]
  have interfaces : ∀ name, name ∈ was.interfaceNames ↔ name ∈ now.interfaceNames := by
    intro name
    simp only [ClassDecl.interfaceNames, List.mem_map, agrees.interfaces]
  have declaration : SameDeclaration was now := {
    kind := agrees.kind
    scope := by rw [agrees.modifiers]
    static := by rw [agrees.modifiers]
    final := by rw [agrees.modifiers]
    abstract := fun _ => by rw [agrees.modifiers]
    superclass := fun _ => parents
    interfaces := interfaces }
  refine ⟨declaration, fun key => ?_⟩
  apply rel_imp (agrees.members key)
  intro member member' same
  rw [same]
  exact sameMember_refl _ _

theorem sameSurface_of_same {api other : Api} (same : api.same other = true) :
    SameSurface api other := by
  have classes : ∀ package name, Option.Rel (fun cls cls' => SameClass cls.item cls'.item)
      (api.classIn? package name) (other.classIn? package name) := by
    intro package name
    apply rel_imp (Api.rel_of_same same package name)
    intro cls cls' agrees
    exact sameClass_of_agrees agrees
  exact SameSurface.of_classes classes

/-- Equal APIs can be compared, and the report is empty. -/
theorem compare_same (api other : Api) (keyed : api.Keyed) (otherKeyed : other.Keyed)
    (same : api.same other = true) :
    api.compare other = .ok
      { previous := api.source, current := other.source, findings := [], errors := 0,
        warnings := 0 } := by
  have modes : api.nullMode = other.nullMode := by
    simp only [Api.same, Bool.and_eq_true, beq_iff_eq] at same
    exact same.1
  have silent := ((findings_both_ways keyed otherKeyed).mpr (sameSurface_of_same same)).1
  rw [Api.compare_eq_ok_iff, silent]
  exact ⟨modes, rfl⟩

/-- Two packages with a class each, for closed checks; all that is stored can be stored
backwards. -/
def storedSample (source : String) (line : Nat) (backwards : Bool) : Api where
  source := source
  nullMode := .nullAware
  packages := .ofList (stored [("p", {
    line
    item := {
      name := "p"
      classes := .ofList (stored [
        ("C", {
          line
          item := {
            name := "C"
            qualifiedName := "p.C"
            kind := .interfaceKind
            interfaces := .ofList (stored [
              { name := "A", args := [{ name := "B", nullness := .nullable }] },
              { name := "E" }])
            members := .ofList (stored [
              (.method "f" ["B[]"], {
                line
                item := .method {
                  name := "f"
                  returnType := { name := "void", nullness := .nonNull }
                  parameters := [{ type := { name := "B", arrayDims := 1 } }] } }),
              (.field "x", {
                line
                item := .field { name := "x", type := { name := "A" }, value := some "1" } })]) } }),
        ("D", { line, item := { name := "D", qualifiedName := "p.D", kind := .enumKind } })]) } }),
    ("q", { line, item := { name := "q" } })])
where
  stored {α : Type} (items : List α) : List α := if backwards then items.reverse else items

theorem compare_same_storedSample :
    (storedSample "old.txt" 1 false).same (storedSample "new.txt" 7 true) = true ∧
    (storedSample "old.txt" 1 false).compare (storedSample "new.txt" 7 true) = .ok
      { previous := "old.txt", current := "new.txt", findings := [], errors := 0,
        warnings := 0 } :=
  ⟨by decide, compare_same _ _ (by decide) (by decide) (by decide)⟩

end ApiCompat.Compare
