import ApiCompat.Api.Basic
import ApiCompat.Proofs.Ordered.Insert
import ApiCompat.Signature.Write

/-!
# Descriptions without places

Lines and the name of the source say where a description was found.  Two
descriptions that agree without them declare the same, and are written alike.
-/

set_option autoImplicit false

namespace ApiCompat

def Located.unplaced {α : Type} (found : Located α) : Located α := { line := 0, item := found.item }

def ClassDecl.unplaced (cls : ClassDecl) : ClassDecl :=
  { cls with members := cls.members.mapValues Located.unplaced }

def Package.unplaced (package : Package) : Package :=
  { package with
    classes := package.classes.mapValues fun found => { line := 0, item := found.item.unplaced } }

def Api.unplaced (api : Api) : Api :=
  { api with
    source := ""
    packages := api.packages.mapValues fun found => { line := 0, item := found.item.unplaced } }

namespace OrderedMap

variable {κ α β γ : Type}

theorem values_mapValues (map : OrderedMap κ α) (f : α → β) :
    (map.mapValues f).values = map.values.map f := by
  simp [values, mapValues, List.map_map, Function.comp_def]

/-- Maps that become equal under functions which keep what matters hold the same entries. -/
theorem sameEntries_of_mapValues [DecidableEq κ] {map : OrderedMap κ α} {other : OrderedMap κ β}
    {f : α → γ} {g : β → γ} {agree : α → β → Bool} (equal : map.mapValues f = other.mapValues g)
    (kept : ∀ first second, f first = g second → agree first second = true) :
    map.sameEntries agree other = true := by
  have entries : (map.entries.map fun entry => (entry.1, f entry.2)) =
      other.entries.map fun entry => (entry.1, g entry.2) := congrArg OrderedMap.entries equal
  have sizes := congrArg List.length entries
  simp only [List.length_map] at sizes
  simp only [sameEntries, size, Bool.and_eq_true, beq_iff_eq, List.all_eq_true]
  refine ⟨sizes, ?_⟩
  intro entry stored
  have mapped : (entry.1, f entry.2) ∈ other.entries.map fun entry => (entry.1, g entry.2) := by
    rw [← entries]
    exact List.mem_map.mpr ⟨entry, stored, rfl⟩
  obtain ⟨⟨key, value⟩, stored', same⟩ := List.mem_map.mp mapped
  obtain ⟨sameKey, sameValue⟩ := Prod.mk.inj same
  have found := (other.get?_eq_some_iff key value).mpr stored'
  simp only at sameKey
  rw [← sameKey, found]
  exact kept _ _ sameValue.symm

end OrderedMap

theorem ClassDecl.same_of_unplaced {cls other : ClassDecl}
    (equal : cls.unplaced = other.unplaced) : cls.same other = true := by
  obtain ⟨name, qualifiedName, kind, modifiers, typeParams, superclass, interfaces, members⟩ := cls
  obtain ⟨name', qualifiedName', kind', modifiers', typeParams', superclass', interfaces',
    members'⟩ := other
  simp only [unplaced, mk.injEq] at equal
  obtain ⟨rfl, rfl, rfl, rfl, rfl, rfl, rfl, sameMembers⟩ := equal
  have inMembers : members.sameEntries (fun first second => first.item == second.item) members' =
      true := by
    refine OrderedMap.sameEntries_of_mapValues sameMembers fun first second same => ?_
    have items := congrArg Located.item same
    simpa [Located.unplaced] using items
  simp [same, inMembers, OrderedSet.sameElements]

theorem Package.same_of_unplaced {package other : Package}
    (equal : package.unplaced = other.unplaced) : package.same other = true := by
  obtain ⟨name, classes⟩ := package
  obtain ⟨name', classes'⟩ := other
  simp only [unplaced, mk.injEq] at equal
  obtain ⟨rfl, sameClasses⟩ := equal
  have inClasses : classes.sameEntries (fun first second => first.item.same second.item) classes' =
      true :=
    OrderedMap.sameEntries_of_mapValues sameClasses fun _ _ same =>
      ClassDecl.same_of_unplaced (congrArg Located.item same)
  simp [same, inClasses]

theorem Api.same_of_unplaced {api other : Api} (equal : api.unplaced = other.unplaced) :
    api.same other = true := by
  obtain ⟨source, mode, packages⟩ := api
  obtain ⟨source', mode', packages'⟩ := other
  simp only [unplaced, mk.injEq, true_and] at equal
  obtain ⟨rfl, samePackages⟩ := equal
  have inPackages : packages.sameEntries (fun first second => first.item.same second.item)
      packages' = true :=
    OrderedMap.sameEntries_of_mapValues samePackages fun _ _ same =>
      Package.same_of_unplaced (congrArg Located.item same)
  simp [same, inPackages]

/-! ## Writing -/

namespace Signature

theorem writeClass_unplaced (mode : NullMode) (cls : ClassDecl) :
    writeClass mode cls.unplaced = writeClass mode cls := by
  simp [writeClass, writeClassHead, ClassDecl.unplaced, OrderedMap.values_mapValues, List.map_map,
    Function.comp_def, Located.unplaced]

theorem writePackage_unplaced (mode : NullMode) (package : Package) :
    writePackage mode package.unplaced = writePackage mode package := by
  simp [writePackage, Package.unplaced, OrderedMap.values_mapValues, List.map_map,
    Function.comp_def, writeClass_unplaced]

theorem write_unplaced (api : Api) : write api.unplaced = write api := by
  simp [write, Api.unplaced, OrderedMap.values_mapValues, List.map_map, Function.comp_def,
    writePackage_unplaced]

theorem write_of_unplaced {api other : Api} (equal : api.unplaced = other.unplaced) :
    write api = write other := by
  rw [← write_unplaced api, equal, write_unplaced]

end Signature

end ApiCompat
