import ApiCompat.Api.Lookup
import ApiCompat.Proofs.Name.Cuts
import ApiCompat.Proofs.Signature.Stored

/-!
# Classes by their qualified names

A lookup tries every cut of a qualified name.  In an API that was read from a
text the cut that is right for a class is among them, since the class is named
after its package, so the lookup finds the class in the innermost package that
holds one of this name.
-/

set_option autoImplicit false

namespace ApiCompat

namespace Api

/-- The package holds the class, whose qualified name is `name`. -/
structure Holds (api : Api) (name : String) (package : Located Package)
    (cls : Located ClassDecl) : Prop where
  stored : package ∈ api.packages.values
  inner : cls ∈ package.item.classes.values
  named : cls.item.qualifiedName = name

/-- No other package that holds a class of this qualified name has so long a name. -/
def HoldsInnermost (api : Api) (name : String) (package : Located Package)
    (cls : Located ClassDecl) : Prop :=
  api.Holds name package cls ∧ ∀ package' cls', api.Holds name package' cls' →
    (package' = package ∧ cls' = cls) ∨ package'.item.name.length < package.item.name.length

/-- No class has this qualified name, and a package name with a dot behind it begins it. -/
def Dangling (api : Api) (name : String) : Prop :=
  (∀ cls ∈ api.classes, cls.item.qualifiedName ≠ name) ∧
    ∃ package ∈ api.packages.values, (package.item.name ++ ".").toList <+: name.toList

instance (api : Api) (name : String) : Decidable (api.Dangling name) :=
  inferInstanceAs (Decidable ((∀ cls ∈ api.classes, cls.item.qualifiedName ≠ name) ∧
    ∃ package ∈ api.packages.values, (package.item.name ++ ".").toList <+: name.toList))

variable {api : Api} {name : String}

theorem mem_classes_iff {cls : Located ClassDecl} :
    (cls ∈ api.classes ∧ cls.item.qualifiedName = name) ↔
      ∃ package, api.Holds name package cls := by
  rw [classes, List.mem_flatMap]
  constructor
  · rintro ⟨⟨package, stored, inner⟩, named⟩
    exact ⟨package, stored, inner, named⟩
  · rintro ⟨package, stored, inner, named⟩
    exact ⟨⟨package, stored, inner⟩, named⟩

theorem HoldsInnermost.unique {package package' : Located Package} {cls cls' : Located ClassDecl}
    (innermost : api.HoldsInnermost name package cls)
    (innermost' : api.HoldsInnermost name package' cls') : cls = cls' := by
  rcases innermost.2 package' cls' innermost'.1 with ⟨_, same⟩ | shorter
  · exact same.symm
  · rcases innermost'.2 package cls innermost.1 with ⟨_, same⟩ | shorter'
    · exact same
    · omega

/-! ## One cut -/

theorem Keyed.classIn?_eq_some_iff (keyed : api.Keyed) {front back : String}
    {cls : Located ClassDecl} : api.classIn? front back = some cls ↔
      ∃ package ∈ api.packages.values, package.item.name = front ∧
        cls ∈ package.item.classes.values ∧ cls.item.name = back := by
  rw [classIn?, Option.bind_eq_some_iff]
  constructor
  · rintro ⟨package, found, inner⟩
    obtain ⟨named, keyed'⟩ := keyed.name_of_get? found
    exact ⟨package, OrderedMap.mem_values_of_get? found, named,
      OrderedMap.mem_values_of_get? inner, (keyed'.name_of_get? inner).1⟩
  · rintro ⟨package, stored, rfl, inner, rfl⟩
    have found := keyed.get?_name stored
    exact ⟨package, found, (keyed.name_of_get? found).2.get?_name inner⟩

namespace Invariant

theorem holds_iff (inv : api.Invariant) {package : Located Package} {cls : Located ClassDecl} :
    api.Holds name package cls ↔ package ∈ api.packages.values ∧
      cls ∈ package.item.classes.values ∧ package.item.name ++ "." ++ cls.item.name = name := by
  constructor
  · rintro ⟨stored, inner, named⟩
    exact ⟨stored, inner, (inv.qualified package stored cls inner).symm.trans named⟩
  · rintro ⟨stored, inner, named⟩
    exact ⟨stored, inner, (inv.qualified package stored cls inner).trans named⟩

theorem classIn?_unnamed (inv : api.Invariant) : api.classIn? "" name = none := by
  refine Option.eq_none_iff_forall_not_mem.mpr fun cls found => ?_
  obtain ⟨package, stored, unnamed, _⟩ := inv.keyed.classIn?_eq_some_iff.mp found
  exact (inv.packages package stored).name.ne_empty unnamed

theorem findClass?_eq (inv : api.Invariant) :
    api.findClass? name = (nameCuts name).findSome? fun cut => api.classIn? cut.1 cut.2 := by
  rw [findClass?, inv.classIn?_unnamed, Option.or_none]

theorem classIn?_of_holds (inv : api.Invariant) {package : Located Package}
    {cls : Located ClassDecl} (holds : api.Holds name package cls) :
    (package.item.name, cls.item.name) ∈ nameCuts name ∧
      api.classIn? package.item.name cls.item.name = some cls := by
  obtain ⟨stored, inner, named⟩ := inv.holds_iff.mp holds
  exact ⟨mem_nameCuts_iff.mpr named,
    inv.keyed.classIn?_eq_some_iff.mpr ⟨package, stored, rfl, inner, rfl⟩⟩

/-- Two packages of one name length that hold a class of this qualified name are one. -/
theorem holds_unique (inv : api.Invariant) {package package' : Located Package}
    {cls cls' : Located ClassDecl} (holds : api.Holds name package cls)
    (holds' : api.Holds name package' cls')
    (length : package'.item.name.length = package.item.name.length) :
    package' = package ∧ cls' = cls := by
  obtain ⟨stored, inner, named⟩ := inv.holds_iff.mp holds
  obtain ⟨stored', inner', named'⟩ := inv.holds_iff.mp holds'
  obtain ⟨fronts, backs⟩ := cut_unique (named'.trans named.symm) length
  have found := inv.keyed.get?_name stored
  have found' := inv.keyed.get?_name stored'
  rw [fronts, found] at found'
  obtain rfl := Option.some.inj found'
  have hit := (inv.keyed.name_of_get? found).2.get?_name inner
  have hit' := (inv.keyed.name_of_get? found).2.get?_name inner'
  rw [backs, hit] at hit'
  exact ⟨rfl, (Option.some.inj hit').symm⟩

/-! ## All cuts -/

theorem findClass?_isSome_of_holds (inv : api.Invariant) {package : Located Package}
    {cls : Located ClassDecl} (holds : api.Holds name package cls) :
    (api.findClass? name).isSome := by
  obtain ⟨cut, found⟩ := inv.classIn?_of_holds holds
  rw [inv.findClass?_eq, List.findSome?_isSome_iff]
  exact ⟨_, cut, by rw [found]; rfl⟩

theorem innermost_of_findClass? (inv : api.Invariant) {cls : Located ClassDecl}
    (found : api.findClass? name = some cls) :
    ∃ package, api.HoldsInnermost name package cls := by
  rw [inv.findClass?_eq, List.findSome?_eq_some_iff] at found
  obtain ⟨earlier, cut, later, cuts, hit, missed⟩ := found
  obtain ⟨package, stored, named, inner, named'⟩ := inv.keyed.classIn?_eq_some_iff.mp hit
  have member : (cut.1, cut.2) ∈ nameCuts name := by simp [cuts]
  have holds : api.Holds name package cls := by
    refine inv.holds_iff.mpr ⟨stored, inner, ?_⟩
    rw [named, named']
    exact mem_nameCuts_iff.mp member
  refine ⟨package, holds, fun package' cls' holds' => ?_⟩
  obtain ⟨cut', hit'⟩ := inv.classIn?_of_holds holds'
  have order := nameCuts_inOrder name
  rw [cuts] at cut' order
  rcases List.mem_append.mp cut' with before | after
  · have miss := missed _ before
    rw [hit'] at miss
    cases miss
  · rcases List.mem_cons.mp after with here | behind
    · rw [← here] at named
      exact .inl (inv.holds_unique holds holds' (congrArg String.length named.symm))
    · right
      have shorter := (List.pairwise_cons.mp (List.pairwise_append.mp order).2.1).1 _ behind
      rw [named]
      exact shorter

/-- A lookup finds a class exactly where the innermost package that can hold it does. -/
theorem findClass?_eq_some_iff (inv : api.Invariant) {cls : Located ClassDecl} :
    api.findClass? name = some cls ↔ ∃ package, api.HoldsInnermost name package cls := by
  constructor
  · exact inv.innermost_of_findClass?
  · rintro ⟨package, innermost⟩
    obtain ⟨cls', found⟩ :=
      Option.isSome_iff_exists.mp (inv.findClass?_isSome_of_holds innermost.1)
    obtain ⟨package', innermost'⟩ := inv.innermost_of_findClass? found
    rw [found, innermost'.unique innermost]

theorem findClass?_isSome_iff (inv : api.Invariant) :
    (api.findClass? name).isSome ↔ ∃ cls ∈ api.classes, cls.item.qualifiedName = name := by
  constructor
  · intro some
    obtain ⟨cls, found⟩ := Option.isSome_iff_exists.mp some
    obtain ⟨package, holds, _⟩ := inv.innermost_of_findClass? found
    exact ⟨cls, mem_classes_iff.mpr ⟨package, holds⟩⟩
  · rintro ⟨cls, stored⟩
    obtain ⟨package, holds⟩ := mem_classes_iff.mp stored
    exact inv.findClass?_isSome_of_holds holds

/-! ## References -/

theorem ownsPackageOf_iff (inv : api.Invariant) : api.ownsPackageOf name = true ↔
    ∃ package ∈ api.packages.values, (package.item.name ++ ".").toList <+: name.toList := by
  rw [ownsPackageOf, List.any_eq_true]
  constructor
  · rintro ⟨⟨front, back⟩, cut, held⟩
    obtain ⟨package, found⟩ := Option.isSome_iff_exists.mp held
    refine ⟨package, OrderedMap.mem_values_of_get? found, back.toList, ?_⟩
    rw [(inv.keyed.name_of_get? found).1, ← String.toList_append, mem_nameCuts_iff.mp cut]
  · rintro ⟨package, stored, back, whole⟩
    refine ⟨(package.item.name, String.ofList back), mem_nameCuts_iff.mpr ?_, ?_⟩
    · rw [← String.toList_inj, String.toList_append, String.toList_ofList, whole]
    · rw [OrderedMap.contains, inv.keyed.get?_name stored]
      rfl

theorem resolves_iff (inv : api.Invariant) :
    ((api.findClass? name).isSome || !api.ownsPackageOf name) = true ↔ ¬api.Dangling name := by
  rw [Bool.or_eq_true, inv.findClass?_isSome_iff, Bool.not_eq_true', ← Bool.not_eq_true,
    inv.ownsPackageOf_iff, Dangling, not_and_or]
  simp only [not_forall, not_not, exists_prop]

theorem unresolvedReferences_eq (inv : api.Invariant) :
    api.unresolvedReferences = api.classes.flatMap fun cls =>
      ((supertypes cls.item).filter fun type => decide (api.Dangling type.name)).map fun type =>
        ⟨cls.item.qualifiedName, type.name, cls.line⟩ := by
  refine List.flatMap_congr fun cls _ => ?_
  rw [← List.filterMap_eq_map, List.filterMap_filter]
  refine List.filterMap_congr fun type _ => ?_
  by_cases dangling : api.Dangling type.name
  · rw [if_neg fun resolves => inv.resolves_iff.mp resolves dangling,
      if_pos (by simpa using dangling)]
    rfl
  · rw [if_pos (inv.resolves_iff.mpr dangling), if_neg (by simpa using dangling)]

end Invariant

end Api

namespace Signature

variable {source text : String} {requested : Option NullMode} {api : Api}

/-- Looking a name up finds the class that declares it, in the innermost package if there are
several, and the references that are reported are those that no class declares although they
lie in a described package. -/
theorem read_lookups (whole : read source text requested = .ok api) :
    (∀ name, (api.findClass? name).isSome ↔ ∃ cls ∈ api.classes, cls.item.qualifiedName = name) ∧
      (∀ name cls, api.findClass? name = some cls ↔
        ∃ package, api.HoldsInnermost name package cls) ∧
      api.unresolvedReferences = api.classes.flatMap fun cls =>
        ((cls.item.superclass.toList ++ cls.item.interfaces.toList).filter fun type =>
          decide (api.Dangling type.name)).map fun type =>
            ⟨cls.item.qualifiedName, type.name, cls.line⟩ := by
  have inv := (formed_of_read whole).1.invariant
  exact ⟨fun _ => inv.findClass?_isSome_iff, fun _ _ => inv.findClass?_eq_some_iff,
    inv.unresolvedReferences_eq⟩

/-- Two classes of one qualified name, and a reference into each package. -/
def overlappingText : String :=
  "package a \x7b\n  class b.C extends a.Missing implements b.I, a.b.C \x7b\n  \x7d\n\x7d\n" ++
    "package a.b \x7b\n  class C extends a.b.C.D \x7b\n  \x7d\n\x7d\n"

theorem read_lookups_overlappingText : ∃ api, read "api.txt" overlappingText none = .ok api ∧
    (∀ name, (api.findClass? name).isSome ↔ ∃ cls ∈ api.classes, cls.item.qualifiedName = name) ∧
      (∀ name cls, api.findClass? name = some cls ↔
        ∃ package, api.HoldsInnermost name package cls) ∧
      api.unresolvedReferences = api.classes.flatMap fun cls =>
        ((cls.item.superclass.toList ++ cls.item.interfaces.toList).filter fun type =>
          decide (api.Dangling type.name)).map fun type =>
            ⟨cls.item.qualifiedName, type.name, cls.line⟩ := by
  obtain ⟨api, whole⟩ := exists_of_isOk
    (show (read "api.txt" overlappingText none).isOk = true by decide +kernel)
  exact ⟨api, whole, read_lookups whole⟩

end Signature

end ApiCompat
