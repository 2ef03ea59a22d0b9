import ApiCompat.Api.Lookup
import ApiCompat.Proofs.Grammar.Declare
import ApiCompat.Proofs.Ordered.Merge

/-!
# Merging descriptions

Two descriptions are merged package by package.  Declaring the blocks of the
second one on top of the first one merges them, unless a class is in both
(`foldlM_declareBlock_merge`).
-/

set_option autoImplicit false

namespace ApiCompat

/-- Both packages as one, where the first one stands; of two classes of one name, the first. -/
def Package.join (package other : Located Package) : Located Package :=
  let classes := package.item.classes.merge (fun cls _ => cls) other.item.classes
  { package with item := { package.item with classes } }

/-- Both descriptions as one. -/
def Api.merge (api other : Api) : Api :=
  { api with packages := api.packages.merge Package.join other.packages }

def Api.moved (shift : Nat → Nat) (api : Api) : Api :=
  { api with packages := changePackages shift (ClassDecl.moved shift) api.packages }

variable (packages others : OrderedMap String (Located Package))

/-- The class of a name in a package. -/
def classAt? (package name : String) : Option (Located ClassDecl) :=
  (packages.get? package).bind fun found => found.item.classes.get? name

/-- No class is lost, and one of the first description is never replaced. -/
theorem classAt?_merge (package name : String) :
    classAt? (packages.merge Package.join others) package name =
      (classAt? packages package name).or (classAt? others package name) := by
  rw [classAt?, classAt?, classAt?, OrderedMap.get?_merge]
  cases packages.get? package with
  | none => rfl
  | some found =>
      cases others.get? package with
      | none => simp
      | some other =>
          simp only [Option.bind_some, Option.elim_some, Package.join, OrderedMap.get?_merge]
          cases found.item.classes.get? name with
          | none => rfl
          | some cls => cases other.item.classes.get? name <;> rfl

/-! ## Declaring on top of a description -/

def unlessTaken {α : Type} (taken : Option (Located ClassDecl)) (value : α) : Except Fault α :=
  match taken with
  | none => .ok value
  | some found =>
      .error { line := found.line, reason := .duplicateClass found.item.qualifiedName }

theorem unlessTaken_or {α β : Type} (taken later : Option (Located ClassDecl)) (value : α)
    (value' : β) :
    unlessTaken (taken.or later) value' =
      unlessTaken taken value >>= fun _ => unlessTaken later value' := by
  cases taken <;> rfl

theorem declareClass_ok {classes result : OrderedMap String (Located ClassDecl)}
    {found : Located ClassDecl} (declared : declareClass classes found = .ok result) :
    classes.contains found.item.name = false ∧ result = classes.insert found.item.name found := by
  unfold declareClass addFound at declared
  split at declared
  · cases declared
  · next absent => exact ⟨Bool.not_eq_true _ ▸ absent, (Except.ok.inj declared).symm⟩

/-- A class declared in a part of a package is declared in all of it, unless it
is in the other part. -/
theorem declareClass_merge (base : OrderedMap String (Located ClassDecl)) {classes result}
    {found : Located ClassDecl} (declared : declareClass classes found = .ok result) :
    declareClass (base.merge (fun cls _ => cls) classes) found =
      unlessTaken ([found].find? fun found => base.contains found.item.name)
        (base.merge (fun cls _ => cls) result) := by
  obtain ⟨absent, rfl⟩ := declareClass_ok declared
  have inBase := base.contains_merge (fun cls _ => cls) classes found.item.name
  rw [absent, Bool.or_false] at inBase
  cases there : base.contains found.item.name with
  | true =>
      rw [there] at inBase
      simp [declareClass, addFound, inBase, there, unlessTaken]
  | false =>
      rw [there] at inBase
      have new : base.get? found.item.name = none := by
        simpa [OrderedMap.contains] using there
      simp [declareClass, addFound, inBase, there, unlessTaken, OrderedMap.merge_insert, new]

theorem foldlM_declareClass_merge {founds : List (Located ClassDecl)}
    (base : OrderedMap String (Located ClassDecl)) {classes result}
    (declared : founds.foldlM declareClass classes = .ok result) :
    founds.foldlM declareClass (base.merge (fun cls _ => cls) classes) =
      unlessTaken (founds.find? fun found => base.contains found.item.name)
        (base.merge (fun cls _ => cls) result) := by
  induction founds generalizing classes with
  | nil =>
      obtain rfl := Except.ok.inj declared
      rfl
  | cons found founds ih =>
      obtain ⟨grown, first, later⟩ := foldlM_cons_eq_ok declared
      have cut : (found :: founds).find? (fun found => base.contains found.item.name) =
          ([found].find? fun found => base.contains found.item.name).or
            (founds.find? fun found => base.contains found.item.name) := by
        rw [← List.singleton_append, List.find?_append]
      rw [List.foldlM_cons, declareClass_merge base first, cut,
        unlessTaken_or _ _ (base.merge (fun cls _ => cls) grown), ← ih later]
      cases [found].find? fun found => base.contains found.item.name <;> rfl

/-- What a block declares, with the package it is declared in. -/
def Block.declared (block : Block) : List (String × Located ClassDecl) :=
  block.classes.map (Prod.mk block.name)

/-- What all blocks declare, in the order of the text. -/
def declaredIn (blocks : List Block) : List (String × Located ClassDecl) :=
  blocks.flatMap Block.declared

/-- The first of the classes that is in the description. -/
def firstTaken (declared : List (String × Located ClassDecl)) : Option (Located ClassDecl) :=
  (declared.find? fun entry => (classAt? packages entry.1 entry.2.item.name).isSome).map Prod.snd

theorem firstTaken_append (declared later : List (String × Located ClassDecl)) :
    firstTaken packages (declared ++ later) =
      (firstTaken packages declared).or (firstTaken packages later) := by
  rw [firstTaken, firstTaken, firstTaken, List.find?_append]
  cases declared.find? fun entry => (classAt? packages entry.1 entry.2.item.name).isSome <;> rfl

def classesAt (name : String) : OrderedMap String (Located ClassDecl) :=
  ((packages.get? name).map fun found => found.item.classes).getD .empty

theorem firstTaken_declared (block : Block) : firstTaken packages block.declared =
    block.classes.find? fun found => (classesAt packages block.name).contains found.item.name := by
  have same : ∀ found : Located ClassDecl, (classAt? packages block.name found.item.name).isSome =
      (classesAt packages block.name).contains found.item.name := by
    intro found
    rw [classAt?, classesAt, OrderedMap.contains]
    cases packages.get? block.name <;> rfl
  rw [firstTaken, Block.declared, List.find?_map, Option.map_map]
  simp only [Function.comp_def, same]
  exact congrFun Option.map_id _

theorem classesAt_openedPackage (packages : OrderedMap String (Located Package)) (line : Nat)
    (name : String) : (openedPackage packages line name).item.classes = classesAt packages name := by
  rw [openedPackage, classesAt]
  cases packages.get? name <;> rfl

/-- What a block that is declared has done. -/
theorem declareBlock_eq_ok {packages result : OrderedMap String (Located Package)} {block : Block}
    (declared : declareBlock packages block = .ok result) :
    ∃ classes, block.classes.foldlM declareClass (classesAt packages block.name) = .ok classes ∧
      result = closePackage packages block.line block.name classes := by
  rw [← classesAt_openedPackage packages block.line]
  unfold declareBlock at declared
  cases own : block.classes.foldlM declareClass
      (openedPackage packages block.line block.name).item.classes with
  | error fault =>
      rw [own] at declared
      cases declared
  | ok classes =>
      rw [own] at declared
      exact ⟨classes, rfl, (Except.ok.inj declared).symm⟩

theorem classesAt_merge (name : String) :
    classesAt (packages.merge Package.join others) name =
      (classesAt packages name).merge (fun cls _ => cls) (classesAt others name) := by
  rw [classesAt, classesAt, classesAt, OrderedMap.get?_merge]
  cases packages.get? name with
  | none => exact (OrderedMap.empty_merge _ _).symm
  | some found =>
      cases others.get? name with
      | none => exact (OrderedMap.merge_empty _ _).symm
      | some other => rfl

theorem closePackage_merge (line : Nat) (name : String)
    (classes : OrderedMap String (Located ClassDecl)) :
    closePackage (packages.merge Package.join others) line name
        ((classesAt packages name).merge (fun cls _ => cls) classes) =
      packages.merge Package.join (closePackage others line name classes) := by
  simp only [closePackage, OrderedMap.merge_insert]
  refine congrArg (OrderedMap.insert _ name) ?_
  simp only [openedPackage, OrderedMap.get?_merge, classesAt]
  cases packages.get? name with
  | none => simp [OrderedMap.empty_merge]
  | some found => cases others.get? name <;> rfl

/-- A block declared on its own is declared on top of a description, unless one
of its classes is there. -/
theorem declareBlock_merge {others result : OrderedMap String (Located Package)} {block : Block}
    (declared : declareBlock others block = .ok result) :
    declareBlock (packages.merge Package.join others) block =
      unlessTaken (firstTaken packages block.declared) (packages.merge Package.join result) := by
  obtain ⟨classes, own, rfl⟩ := declareBlock_eq_ok declared
  have whole := foldlM_declareClass_merge (classesAt packages block.name) own
  rw [declareBlock, classesAt_openedPackage, classesAt_merge, whole, firstTaken_declared,
    ← closePackage_merge]
  cases block.classes.find? fun found =>
    (classesAt packages block.name).contains found.item.name <;> rfl

/-- Blocks declared on their own are declared on top of a description, unless a
class is in both; then the first such class is the fault. -/
theorem foldlM_declareBlock_merge {others result : OrderedMap String (Located Package)}
    {blocks : List Block} (declared : blocks.foldlM declareBlock others = .ok result) :
    blocks.foldlM declareBlock (packages.merge Package.join others) =
      unlessTaken (firstTaken packages (declaredIn blocks))
        (packages.merge Package.join result) := by
  induction blocks generalizing others with
  | nil =>
      obtain rfl := Except.ok.inj declared
      rfl
  | cons block blocks ih =>
      obtain ⟨grown, first, later⟩ := foldlM_cons_eq_ok declared
      have cut : declaredIn (block :: blocks) = block.declared ++ declaredIn blocks :=
        List.flatMap_cons
      rw [List.foldlM_cons, declareBlock_merge packages first, cut, firstTaken_append,
        unlessTaken_or _ _ (packages.merge Package.join grown), ← ih later]
      cases firstTaken packages block.declared <;> rfl

/-! ## What blocks declare -/

theorem get?_foldlM_declareClass {founds : List (Located ClassDecl)} {classes result}
    (declared : founds.foldlM declareClass classes = .ok result) (name : String)
    (cls : Located ClassDecl) : result.get? name = some cls ↔
      classes.get? name = some cls ∨ (cls ∈ founds ∧ cls.item.name = name) := by
  induction founds generalizing classes with
  | nil =>
      obtain rfl := Except.ok.inj declared
      simp
  | cons found founds ih =>
      obtain ⟨grown, first, later⟩ := foldlM_cons_eq_ok declared
      obtain ⟨absent, rfl⟩ := declareClass_ok first
      have new : classes.get? found.item.name = none := by
        simpa [OrderedMap.contains] using absent
      rw [ih later, OrderedMap.get?_insert]
      by_cases same : name = found.item.name
      · subst same
        rw [if_pos rfl, new]
        grind
      · rw [if_neg same]
        grind

theorem get?_classesAt (packages : OrderedMap String (Located Package)) (package name : String) :
    (classesAt packages package).get? name = classAt? packages package name := by
  rw [classesAt, classAt?]
  cases packages.get? package <;> rfl

theorem classAt?_closePackage (packages : OrderedMap String (Located Package)) (line : Nat)
    (block : String) (classes : OrderedMap String (Located ClassDecl)) (package name : String) :
    classAt? (closePackage packages line block classes) package name =
      if package = block then classes.get? name else classAt? packages package name := by
  rw [classAt?, closePackage, OrderedMap.get?_insert]
  split <;> rfl

theorem classAt?_declareBlock {packages result : OrderedMap String (Located Package)}
    {block : Block} (declared : declareBlock packages block = .ok result) (package name : String)
    (cls : Located ClassDecl) : classAt? result package name = some cls ↔
      classAt? packages package name = some cls ∨
        ((package, cls) ∈ block.declared ∧ cls.item.name = name) := by
  obtain ⟨classes, own, rfl⟩ := declareBlock_eq_ok declared
  have inBlock := get?_foldlM_declareClass own name cls
  rw [get?_classesAt] at inBlock
  rw [classAt?_closePackage]
  by_cases same : package = block.name
  · subst same
    simpa [Block.declared] using inBlock
  · simp [same, Block.declared, Ne.symm same]

/-- What the blocks of a text declare is what can be looked up afterwards. -/
theorem classAt?_foldlM_declareBlock {blocks : List Block}
    {packages result : OrderedMap String (Located Package)}
    (declared : blocks.foldlM declareBlock packages = .ok result) (package name : String)
    (cls : Located ClassDecl) : classAt? result package name = some cls ↔
      classAt? packages package name = some cls ∨
        ((package, cls) ∈ declaredIn blocks ∧ cls.item.name = name) := by
  induction blocks generalizing packages with
  | nil =>
      obtain rfl := Except.ok.inj declared
      simp [declaredIn]
  | cons block blocks ih =>
      obtain ⟨grown, first, later⟩ := foldlM_cons_eq_ok declared
      have cut : declaredIn (block :: blocks) = block.declared ++ declaredIn blocks :=
        List.flatMap_cons
      rw [ih later, classAt?_declareBlock first, cut, List.mem_append, or_assoc, or_and_right]

/-! ## Moved blocks -/

theorem keepsNames_moved (shift : Nat → Nat) : KeepsNames (ClassDecl.moved shift) :=
  ⟨fun _ => rfl, fun _ => rfl⟩

variable {shift : Nat → Nat} {change : ClassDecl → ClassDecl}

theorem declaredIn_changed (blocks : List Block) :
    declaredIn (blocks.map (Block.changed shift change)) =
      (declaredIn blocks).map fun entry => (entry.1, entry.2.move shift change) := by
  simp [declaredIn, Block.declared, Block.changed, List.flatMap_map, List.map_flatMap,
    Function.comp_def]

/-- Lines do not count for what is taken. -/
theorem firstTaken_changed (keeps : KeepsNames change) (blocks : List Block) :
    firstTaken packages (declaredIn (blocks.map (Block.changed shift change))) =
      (firstTaken packages (declaredIn blocks)).map (Located.move shift change) := by
  rw [declaredIn_changed, firstTaken, firstTaken, List.find?_map, Option.map_map, Option.map_map]
  have name : ∀ found : Located ClassDecl,
      (found.move shift change).item.name = found.item.name := fun found => keeps.name found.item
  simp only [Function.comp_def, name]

end ApiCompat
