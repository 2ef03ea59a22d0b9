import ApiCompat.Proofs.Grammar.Trees
import ApiCompat.Proofs.Ordered.Values

/-!
# What syntax trees declare

The blocks of a text declare their classes one after the other.  A name that
is there already is a fault, wherever the text goes on.  Lines only say where
a thing is: when they all change, so does the line of the fault and nothing
else (`moveOutcome_foldlM`).
-/

set_option autoImplicit false

namespace ApiCompat

/-! ## Moving to other lines -/

def Fault.move (shift : Nat → Nat) (fault : Fault) : Fault :=
  { fault with line := shift fault.line }

def Located.move {α β : Type} (shift : Nat → Nat) (change : α → β) (found : Located α) :
    Located β :=
  { line := shift found.line, item := change found.item }

/-- An outcome with its fault on another line or its value changed by a function. -/
def moveOutcome {α β : Type} (shift : Nat → Nat) (change : α → β) :
    Except Fault α → Except Fault β
  | .ok value => .ok (change value)
  | .error fault => .error (fault.move shift)

section Moving

variable {α β σ σ' ι ι' : Type} {shift : Nat → Nat}

theorem moveOutcome_bind (change : σ → σ') {change' : α → β} {outcome : Except Fault σ}
    {next : σ → Except Fault α} {next' : σ' → Except Fault β}
    (each : ∀ state, moveOutcome shift change' (next state) = next' (change state)) :
    moveOutcome shift change' (outcome >>= next) = moveOutcome shift change outcome >>= next' := by
  cases outcome with
  | error fault => rfl
  | ok state => exact each state

/-- Steps that may be moved one by one may be moved together. -/
theorem moveOutcome_foldlM {step : σ → ι → Except Fault σ} {step' : σ' → ι' → Except Fault σ'}
    {change : σ → σ'} {moved : ι → ι'}
    (each : ∀ state item, moveOutcome shift change (step state item) =
      step' (change state) (moved item)) (items : List ι) (state : σ) :
    moveOutcome shift change (items.foldlM step state) =
      (items.map moved).foldlM step' (change state) := by
  induction items generalizing state with
  | nil => rfl
  | cons item items ih =>
      rw [List.foldlM_cons, List.map_cons, List.foldlM_cons, ← each]
      exact moveOutcome_bind change ih

theorem foldlM_cons_eq_ok {step : σ → ι → Except Fault σ} {state result : σ} {item : ι}
    {items : List ι} (whole : (item :: items).foldlM step state = .ok result) :
    ∃ next, step state item = .ok next ∧ items.foldlM step next = .ok result := by
  rw [List.foldlM_cons] at whole
  cases first : step state item with
  | error fault =>
      rw [first] at whole
      cases whole
  | ok next =>
      rw [first] at whole
      exact ⟨next, rfl, whole⟩

/-- The first of several steps, and what follows them. -/
theorem foldlM_cons_bind (step : σ → ι → Except Fault σ) (state : σ) (item : ι) (items : List ι)
    (next : σ → Except Fault α) :
    (item :: items).foldlM step state >>= next =
      step state item >>= fun state => items.foldlM step state >>= next := by
  rw [List.foldlM_cons, bind_assoc]

/-- Some steps, and a run behind them that makes the other steps. -/
theorem foldlM_append_bind (step : σ → ι → Except Fault σ) {rest : β}
    {run : σ × β → Except Fault α} {later : List ι} {next : σ → Except Fault α}
    (behind : ∀ state, run (state, rest) = later.foldlM step state >>= next) (items : List ι)
    (state : σ) :
    (items.foldlM step state >>= fun state => .ok (state, rest)) >>= run =
      (items ++ later).foldlM step state >>= next := by
  rw [List.foldlM_append, bind_assoc, bind_assoc]
  exact congrArg (items.foldlM step state >>= ·) (funext behind)

end Moving

/-! ## Adding what must not be there -/

section AddFound

variable {κ α β : Type} [DecidableEq κ]

/-- Adds a declaration; a second one of the same key is a fault on its line. -/
def addFound (key : α → κ) (duplicate : α → Reason) (map : OrderedMap κ (Located α))
    (found : Located α) : Except Fault (OrderedMap κ (Located α)) :=
  if map.contains (key found.item) then
    .error { line := found.line, reason := duplicate found.item }
  else .ok (map.insert (key found.item) found)

theorem addFound_move {key : α → κ} {key' : β → κ} {duplicate : α → Reason}
    {duplicate' : β → Reason} {shift : Nat → Nat} {change : α → β}
    (sameKey : ∀ item, key' (change item) = key item)
    (sameReason : ∀ item, duplicate' (change item) = duplicate item)
    (map : OrderedMap κ (Located α)) (found : Located α) :
    moveOutcome shift (fun map => map.mapValues (Located.move shift change))
        (addFound key duplicate map found) =
      addFound key' duplicate' (map.mapValues (Located.move shift change))
        (found.move shift change) := by
  have present := map.contains_mapValues (Located.move shift change) (key found.item)
  cases there : map.contains (key found.item) with
  | true =>
      simp [addFound, Located.move, sameKey, sameReason, there, present.trans there, moveOutcome,
        Fault.move]
  | false =>
      simp [addFound, Located.move, sameKey, there, present.trans there, moveOutcome,
        OrderedMap.mapValues_insert]

end AddFound

/-! ## Blocks -/

def ClassDecl.moved (shift : Nat → Nat) (cls : ClassDecl) : ClassDecl :=
  { cls with members := cls.members.mapValues (Located.move shift id) }

def Package.changed (shift : Nat → Nat) (change : ClassDecl → ClassDecl) (package : Package) :
    Package :=
  { package with classes := package.classes.mapValues (Located.move shift change) }

/-- All packages on other lines, with their classes changed by a function. -/
def changePackages (shift : Nat → Nat) (change : ClassDecl → ClassDecl)
    (packages : OrderedMap String (Located Package)) : OrderedMap String (Located Package) :=
  packages.mapValues (Located.move shift (Package.changed shift change))

/-- What one package block declares. -/
structure Block where
  line : Nat
  name : String
  classes : List (Located ClassDecl) := []

def Block.changed (shift : Nat → Nat) (change : ClassDecl → ClassDecl) (block : Block) : Block :=
  { line := shift block.line, name := block.name,
    classes := block.classes.map (Located.move shift change) }

def declareClass (classes : OrderedMap String (Located ClassDecl)) (found : Located ClassDecl) :
    Except Fault (OrderedMap String (Located ClassDecl)) :=
  addFound ClassDecl.name (fun cls => .duplicateClass cls.qualifiedName) classes found

/-- The package that a block opens: the one of its name that is there, or a new one. -/
def openedPackage (packages : OrderedMap String (Located Package)) (line : Nat) (name : String) :
    Located Package :=
  (packages.get? name).getD { line, item := { name } }

/-- Puts the classes that are there after a block into its package. -/
def closePackage (packages : OrderedMap String (Located Package)) (line : Nat) (name : String)
    (classes : OrderedMap String (Located ClassDecl)) : OrderedMap String (Located Package) :=
  let opened := openedPackage packages line name
  packages.insert name { opened with item := { opened.item with classes } }

def declareBlock (packages : OrderedMap String (Located Package)) (block : Block) :
    Except Fault (OrderedMap String (Located Package)) := do
  let classes ← block.classes.foldlM declareClass
    (openedPackage packages block.line block.name).item.classes
  return closePackage packages block.line block.name classes

theorem ClassDecl.moved_id : ClassDecl.moved id = id := by
  funext cls
  exact congrArg (fun members => { cls with members }) (OrderedMap.mapValues_id cls.members)

theorem Block.changed_id : Block.changed id id = id := by
  funext block
  have classes : block.classes.map (Located.move id id) = block.classes := List.map_id _
  rw [Block.changed, classes]
  rfl

structure KeepsNames (change : ClassDecl → ClassDecl) : Prop where
  name : ∀ cls, (change cls).name = cls.name
  qualifiedName : ∀ cls, (change cls).qualifiedName = cls.qualifiedName

section Changes

variable {shift : Nat → Nat} {change : ClassDecl → ClassDecl}

theorem declareClass_changed (shift : Nat → Nat) (keeps : KeepsNames change)
    (classes : OrderedMap String (Located ClassDecl)) (found : Located ClassDecl) :
    moveOutcome shift (fun classes => classes.mapValues (Located.move shift change))
        (declareClass classes found) =
      declareClass (classes.mapValues (Located.move shift change)) (found.move shift change) :=
  addFound_move keeps.name (fun cls => by rw [keeps.qualifiedName]) classes found

theorem openedPackage_changed (packages : OrderedMap String (Located Package)) (line : Nat)
    (name : String) :
    openedPackage (changePackages shift change packages) (shift line) name =
      (openedPackage packages line name).move shift (Package.changed shift change) := by
  rw [openedPackage, openedPackage, changePackages, OrderedMap.get?_mapValues]
  cases packages.get? name <;> rfl

theorem closePackage_changed (packages : OrderedMap String (Located Package)) (line : Nat)
    (name : String) (classes : OrderedMap String (Located ClassDecl)) :
    changePackages shift change (closePackage packages line name classes) =
      closePackage (changePackages shift change packages) (shift line) name
        (classes.mapValues (Located.move shift change)) := by
  simp only [closePackage, openedPackage_changed]
  exact OrderedMap.mapValues_insert packages _ name _

/-- A block may be changed before or after it is declared. -/
theorem declareBlock_changed (keeps : KeepsNames change)
    (packages : OrderedMap String (Located Package)) (block : Block) :
    moveOutcome shift (changePackages shift change) (declareBlock packages block) =
      declareBlock (changePackages shift change packages) (block.changed shift change) := by
  have opened : openedPackage (changePackages shift change packages) (shift block.line)
      block.name = _ := openedPackage_changed packages block.line block.name
  have classes := moveOutcome_foldlM (declareClass_changed shift keeps) block.classes
    (openedPackage packages block.line block.name).item.classes
  simp only [declareBlock, Block.changed, opened]
  refine (moveOutcome_bind _ fun classes => ?_).trans (congrArg (· >>= _) classes)
  exact congrArg Except.ok (closePackage_changed packages block.line block.name classes)

theorem foldlM_declareBlock_changed (shift : Nat → Nat) (keeps : KeepsNames change)
    (blocks : List Block) (packages : OrderedMap String (Located Package)) :
    moveOutcome shift (changePackages shift change) (blocks.foldlM declareBlock packages) =
      (blocks.map (Block.changed shift change)).foldlM declareBlock
        (changePackages shift change packages) :=
  moveOutcome_foldlM (declareBlock_changed keeps) blocks packages

end Changes

namespace Grammar

open Signature

/-! ## The meaning of trees -/

theorem erasure_typeIn (mode mode' : NullMode) (declared : Option Nullness) (type : TypeTree) :
    (type.typeIn mode declared).erasure = (type.typeIn mode' declared).erasure := by
  cases type <;> rfl

/-- Nullness takes no part in a key. -/
theorem MemberTree.key_memberIn (mode : NullMode) (member : MemberTree) :
    (member.memberIn mode).key = member.key := by
  have parameters : ∀ parameters : List ParameterTree,
      erasures (parameters.map (ParameterTree.parameterIn mode)) =
        erasures (parameters.map (ParameterTree.parameterIn .legacy)) := by
    intro parameters
    simp only [erasures, List.map_map]
    exact List.map_congr_left fun parameter _ => erasure_typeIn mode .legacy none parameter.type
  cases member with
  | constructor item => exact congrArg MemberKey.constructor (parameters item.parameters)
  | method item => exact congrArg (MemberKey.method item.name) (parameters item.parameters)
  | field item => rfl

theorem membersIn_eq (mode : NullMode) (members : List (Located MemberTree)) :
    membersIn mode members =
      (OrderedMap.ofList (members.map fun found => (found.item.key, found))).mapValues
        (Located.move id (MemberTree.memberIn mode)) := by
  rw [OrderedMap.mapValues_ofList, List.map_map]
  rfl

theorem contains_membersIn (mode mode' : NullMode) (members : List (Located MemberTree))
    (key : MemberKey) : (membersIn mode members).contains key =
      (membersIn mode' members).contains key := by
  rw [membersIn_eq, membersIn_eq, OrderedMap.contains_mapValues, OrderedMap.contains_mapValues]

theorem membersIn_concat (mode : NullMode) (members : List (Located MemberTree))
    (found : Located MemberTree) :
    membersIn mode (members ++ [found]) =
      (membersIn mode members).insert found.item.key (found.move id (MemberTree.memberIn mode)) := by
  simp only [membersIn, OrderedMap.ofList, List.map_append, List.foldl_append]
  rfl

/-- Members with distinct keys are all there, in order. -/
theorem entries_membersIn (mode : NullMode) {members : List (Located MemberTree)}
    (distinct : (members.map fun found => found.item.key).Nodup) :
    (membersIn mode members).entries = members.map fun found =>
      (found.item.key, found.move id (MemberTree.memberIn mode)) := by
  refine OrderedMap.entries_ofList ?_
  rw [List.map_map]
  exact distinct

def blockIn (mode : NullMode) (block : Located PackageTree) : Block :=
  { line := block.line, name := block.item.name.text,
    classes := block.item.classes.map
      (Located.move id (ClassTree.classIn mode block.item.name.text)) }

/-- What all blocks of a text declare, unless a class is declared twice. -/
def packagesIn (mode : NullMode) (blocks : List (Located PackageTree)) :
    Except Fault (OrderedMap String (Located Package)) :=
  (blocks.map (blockIn mode)).foldlM declareBlock .empty

end Grammar

end ApiCompat
