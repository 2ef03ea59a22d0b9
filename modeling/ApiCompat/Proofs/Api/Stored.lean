import ApiCompat.Proofs.Api.Merge

/-!
# What blocks leave behind, in order

The blocks of a text put their classes into the packages in the order of the
text, and a package stands where its first block does.
-/

set_option autoImplicit false

namespace ApiCompat

def OrderedMap.keySet {κ α : Type} (map : OrderedMap κ α) : OrderedSet κ := ⟨map.keys, map.distinct⟩

theorem OrderedMap.keySet_insert {κ α : Type} [DecidableEq κ] (map : OrderedMap κ α) (key : κ)
    (value : α) : (map.insert key value).keySet = map.keySet.insert key := by
  apply OrderedSet.ext_toList
  by_cases stored : key ∈ map.keys
  · simp [keySet, OrderedSet.insert, stored]
  · simp [keySet, OrderedSet.insert, stored]

theorem values_declareClass {classes result : OrderedMap String (Located ClassDecl)}
    {found : Located ClassDecl} (declared : declareClass classes found = .ok result) :
    result.values = classes.values ++ [found] := by
  obtain ⟨absent, rfl⟩ := declareClass_ok declared
  rw [OrderedMap.values, OrderedMap.entries_insert absent, List.map_append]
  rfl

theorem values_foldlM_declareClass {founds : List (Located ClassDecl)}
    {classes result : OrderedMap String (Located ClassDecl)}
    (declared : founds.foldlM declareClass classes = .ok result) :
    result.values = classes.values ++ founds := by
  induction founds generalizing classes with
  | nil =>
      obtain rfl := Except.ok.inj declared
      exact (List.append_nil _).symm
  | cons found founds ih =>
      obtain ⟨grown, first, later⟩ := foldlM_cons_eq_ok declared
      rw [ih later, values_declareClass first, List.append_assoc]
      rfl

theorem classesAt_closePackage (packages : OrderedMap String (Located Package)) (line : Nat)
    (block : String) (classes : OrderedMap String (Located ClassDecl)) (name : String) :
    classesAt (closePackage packages line block classes) name =
      if name = block then classes else classesAt packages name := by
  rw [classesAt, closePackage, OrderedMap.get?_insert]
  split <;> rfl

/-- The classes that the blocks of one name declare. -/
def classesOf (name : String) (blocks : List Block) : List (Located ClassDecl) :=
  (blocks.filter fun block => block.name == name).flatMap Block.classes

section Block

variable {packages result : OrderedMap String (Located Package)} {block : Block}

theorem keySet_declareBlock (declared : declareBlock packages block = .ok result) :
    result.keySet = packages.keySet.insert block.name := by
  obtain ⟨classes, _, rfl⟩ := declareBlock_eq_ok declared
  exact packages.keySet_insert block.name _

theorem values_declareBlock (declared : declareBlock packages block = .ok result) (name : String) :
    (classesAt result name).values =
      (classesAt packages name).values ++ classesOf name [block] := by
  obtain ⟨classes, own, rfl⟩ := declareBlock_eq_ok declared
  rw [classesAt_closePackage]
  by_cases same : name = block.name
  · subst same
    rw [if_pos rfl, values_foldlM_declareClass own]
    simp [classesOf]
  · simp [classesOf, same, Ne.symm same]

end Block

section Blocks

variable {packages result : OrderedMap String (Located Package)} {blocks : List Block}

/-- A package stands where its first block does. -/
theorem keySet_foldlM_declareBlock (declared : blocks.foldlM declareBlock packages = .ok result) :
    result.keySet = packages.keySet.insertAll (blocks.map Block.name) := by
  induction blocks generalizing packages with
  | nil =>
      obtain rfl := Except.ok.inj declared
      rfl
  | cons block blocks ih =>
      obtain ⟨grown, first, later⟩ := foldlM_cons_eq_ok declared
      rw [ih later, keySet_declareBlock first]
      rfl

/-- The classes of a package stand in the order of the text, block by block. -/
theorem values_foldlM_declareBlock (declared : blocks.foldlM declareBlock packages = .ok result)
    (name : String) :
    (classesAt result name).values = (classesAt packages name).values ++ classesOf name blocks := by
  induction blocks generalizing packages with
  | nil =>
      obtain rfl := Except.ok.inj declared
      exact (List.append_nil _).symm
  | cons block blocks ih =>
      obtain ⟨grown, first, later⟩ := foldlM_cons_eq_ok declared
      have cut : classesOf name (block :: blocks) =
          classesOf name [block] ++ classesOf name blocks := by
        rw [classesOf, ← List.singleton_append, List.filter_append, List.flatMap_append]
        rfl
      rw [ih later, values_declareBlock first, cut, List.append_assoc]

end Blocks

end ApiCompat
