import ApiCompat.Proofs.Ordered.Pointwise
import ApiCompat.Proofs.Respaced.Members
import ApiCompat.Signature.Classes

/-!
# Classes and packages see tokens only

What is stored is stored under the same keys and in the same order in both
texts, so a duplicate in one is a duplicate in the other.
-/

set_option autoImplicit false

namespace ApiCompat.Signature.Respacing

open Reader

variable {run : Respacing}

/-! ## Kinds and supertypes -/

theorem follows_classKind : run.Follows Eq classKind classKind := by
  refine (follows_skipWord "class").branch (follows_pure rfl) ?_
  refine (follows_skipWord "interface").branch (follows_pure rfl) ?_
  refine (follows_skipWord "enum").branch (follows_pure rfl) ?_
  refine follows_remaining.bind fun rest rest' beside => ?_
  rcases beside.cases with ⟨rfl, rfl⟩ | ⟨sign, later, sign', later', rfl, rfl, sameSign, behind⟩
  · exact follows_unexpected .classKeyword
  rcases behind.cases with ⟨rfl, rfl⟩ | ⟨word, more, word', more', rfl, rfl, sameWord, behind⟩
  · exact follows_unexpected .classKeyword
  refine .ite (by rw [kind_eq sameSign, text_eq sameWord]) (fun _ => ?_) fun _ =>
    follows_unexpected .classKeyword
  exact (follows_continueWith behind).bind fun _ _ _ => follows_pure rfl

theorem follows_typeListRest (rounds : Nat) :
    run.Follows Eq (typeListRest rounds) (typeListRest rounds) := by
  induction rounds with
  | zero => exact follows_pure rfl
  | succ rounds ih =>
      refine (follows_skip .comma).bind fun _ _ _ => ?_
      refine follows_remaining.bind fun rest rest' beside => ?_
      rcases beside.cases with ⟨rfl, rfl⟩ | ⟨next, later, next', later', rfl, rfl, same, _⟩
      · exact follows_pure rfl
      refine .ite (by rw [kind_eq same, isWord_eq same]) (fun _ => follows_pure rfl) fun _ => ?_
      refine follows_plainType.bind_same fun first => ?_
      refine ih.bind_same fun later => ?_
      exact follows_pure rfl

theorem follows_typeList : run.Follows Eq typeList typeList := by
  refine follows_plainType.bind_same fun first => ?_
  refine follows_remaining.bind fun rest rest' beside => ?_
  rw [beside.length_eq]
  refine (follows_typeListRest rest'.length).bind_same fun later => ?_
  exact follows_pure rfl

/-- What is read of the supertypes behind what the class extends. -/
theorem follows_implements (superclass : Option TypeRef) (extended : List TypeRef) :
    run.Follows Eq
      (do
        let implemented ← if ← skipWord? "implements" then typeList else pure []
        return (superclass, (OrderedSet.ofList extended).insertAll implemented))
      (do
        let implemented ← if ← skipWord? "implements" then typeList else pure []
        return (superclass, (OrderedSet.ofList extended).insertAll implemented)) := by
  refine (follows_skipWord "implements").branch ?_ (follows_pure rfl)
  exact follows_typeList.bind_same fun implemented => follows_pure rfl

theorem follows_supertypeClauses (kind : ClassKind) :
    run.Follows Eq (supertypeClauses kind) (supertypeClauses kind) := by
  refine (follows_skipWord "extends").branch ?_ (follows_implements none [])
  refine .ite Iff.rfl (fun _ => ?_) fun _ => ?_
  · refine follows_typeList.bind_same fun types => ?_
    exact follows_implements none types
  · refine follows_plainType.bind_same fun type => ?_
    exact follows_implements (some type) []

/-! ## Blocks -/

section Maps

variable {κ α β : Type} {outline : α → β} {verbatims : α → List String}

abbrev StoredAlike (run : Respacing) (outline : α → β) (verbatims : α → List String) :
    OrderedMap κ (Located α) → OrderedMap κ (Located α) → Prop :=
  OrderedMap.Pointwise fun found found' => run.Alike outline verbatims found.item found'.item

theorem Alike.stored {map map' : OrderedMap κ (Located α)}
    (pointwise : run.StoredAlike outline verbatims map map') :
    run.Alike (fun map : OrderedMap κ (Located α) => map.mapValues (Located.plain outline))
      (fun map => map.values.flatMap fun found => verbatims found.item) map map' where
  same := pointwise.mapValues_eq fun _ _ alike => congrArg (Located.mk 0) alike.same
  quoted := List.rel_flatMap pointwise.values fun _ _ alike => alike.quoted

end Maps

abbrev MembersAlike (run : Respacing) :
    OrderedMap MemberKey (Located Member) → OrderedMap MemberKey (Located Member) → Prop :=
  run.StoredAlike Member.outline Member.verbatims

abbrev ClassAlike (run : Respacing) : ClassDecl → ClassDecl → Prop :=
  run.Alike ClassDecl.outline ClassDecl.verbatims

abbrev ClassesAlike (run : Respacing) :
    OrderedMap String (Located ClassDecl) → OrderedMap String (Located ClassDecl) → Prop :=
  run.StoredAlike ClassDecl.outline ClassDecl.verbatims

/-- The packages have the same name and like classes, to which more may be added. -/
structure PackageAlike (run : Respacing) (package package' : Package) : Prop where
  name : package.name = package'.name
  classes : run.ClassesAlike package.classes package'.classes

theorem PackageAlike.alike {package package' : Package}
    (alike : run.PackageAlike package package') :
    run.Alike Package.outline Package.verbatims package package' where
  same := by
    rw [Package.outline, Package.outline, alike.name]
    exact congrArg (Package.mk package'.name) (Alike.stored alike.classes).same
  quoted := (Alike.stored alike.classes).quoted

abbrev PackagesAlike (run : Respacing) :
    OrderedMap String (Located Package) → OrderedMap String (Located Package) → Prop :=
  OrderedMap.Pointwise fun found found' => run.PackageAlike found.item found'.item

theorem follows_classBody (line line' : Nat) (owner : String) (rounds : Nat)
    {members members' : OrderedMap MemberKey (Located Member)}
    (alike : run.MembersAlike members members') :
    run.Follows run.MembersAlike (classBody line owner rounds members)
      (classBody line' owner rounds members') := by
  induction rounds generalizing members members' with
  | zero => exact follows_failAt line line' _
  | succ rounds ih =>
      refine (follows_skip .rightBrace).branch (follows_pure alike) ?_
      refine follows_remaining.bind fun rest rest' beside => ?_
      refine .ite (by rw [isEmpty_eq beside]) (fun _ => follows_failAt line line' _) fun _ => ?_
      refine follows_member.bind fun found found' item => ?_
      have sameKey : found.item.key = found'.item.key := by
        rw [← found.item.key_outline, item.same, found'.item.key_outline]
      dsimp only
      rw [← sameKey, ← alike.contains_eq]
      refine .ite Iff.rfl (fun _ => follows_failAt found.line found'.line _) fun _ => ?_
      exact ih (alike.insert found.item.key item)

theorem follows_classDecl (package : String) :
    run.Follows (fun found found' => run.ClassAlike found.item found'.item) (classDecl package)
      (classDecl package) := by
  refine follows_currentLine.bind fun line line' _ => ?_
  refine follows_preamble.bind fun front front' alike => ?_
  refine follows_classKind.bind_same fun kind => ?_
  refine (follows_qualifiedName .className).bind_same fun name => ?_
  refine follows_typeParams.bind_same fun typeParams => ?_
  refine (follows_supertypeClauses kind).bind_same fun supertypes => ?_
  refine (follows_expect .leftBrace).bind fun _ _ _ => ?_
  refine follows_remaining.bind fun rest rest' beside => ?_
  rw [beside.length_eq]
  refine (follows_classBody line line' _ rest'.length OrderedMap.pointwise_empty).bind
    fun members members' stored => ?_
  have inMembers := Alike.stored stored
  refine follows_pure ⟨?_, List.rel_append alike.modifiers.quoted inMembers.quoted⟩
  simp only [ClassDecl.outline, alike.modifiers.same, inMembers.same]

theorem follows_packageBody (line line' : Nat) (package : String) (rounds : Nat)
    {classes classes' : OrderedMap String (Located ClassDecl)}
    (alike : run.ClassesAlike classes classes') :
    run.Follows run.ClassesAlike (packageBody line package rounds classes)
      (packageBody line' package rounds classes') := by
  induction rounds generalizing classes classes' with
  | zero => exact follows_failAt line line' _
  | succ rounds ih =>
      refine (follows_skip .rightBrace).branch (follows_pure alike) ?_
      refine follows_remaining.bind fun rest rest' beside => ?_
      refine .ite (by rw [isEmpty_eq beside]) (fun _ => follows_failAt line line' _) fun _ => ?_
      refine (follows_classDecl package).bind fun found found' item => ?_
      -- Names are part of the outline, so both runs find the same duplicates.
      have sameName : found.item.name = found'.item.name :=
        (congrArg ClassDecl.name item.same :)
      have sameQualified : found.item.qualifiedName = found'.item.qualifiedName :=
        (congrArg ClassDecl.qualifiedName item.same :)
      rw [← sameName, ← sameQualified, ← alike.contains_eq]
      refine .ite Iff.rfl (fun _ => follows_failAt found.line found'.line _) fun _ => ?_
      exact ih (alike.insert found.item.name item)

/-- The package that a block adds to: the one of that name, or a new one. -/
theorem opened_alike {packages packages' : OrderedMap String (Located Package)}
    (alike : run.PackagesAlike packages packages') (name : String) (line line' : Nat) :
    run.PackageAlike ((packages.get? name).getD { line, item := { name } }).item
      ((packages'.get? name).getD { line := line', item := { name } }).item := by
  have found := alike.get? name
  generalize packages.get? name = package at found ⊢
  generalize packages'.get? name = package' at found ⊢
  cases found with
  | none => exact ⟨rfl, OrderedMap.pointwise_empty⟩
  | some alike => exact alike

theorem follows_packageBlock {packages packages' : OrderedMap String (Located Package)}
    (alike : run.PackagesAlike packages packages') :
    run.Follows run.PackagesAlike (packageBlock packages) (packageBlock packages') := by
  refine follows_currentLine.bind fun line line' _ => ?_
  refine (follows_skipWord "package").branch ?_ (follows_unexpected .packageKeyword)
  refine (follows_qualifiedName .packageName).bind_same fun name => ?_
  refine (follows_expect .leftBrace).bind fun _ _ _ => ?_
  have opened := opened_alike alike name line line'
  refine follows_remaining.bind fun rest rest' beside => ?_
  rw [beside.length_eq]
  refine (follows_packageBody line line' name rest'.length opened.classes).bind
    fun classes classes' stored => ?_
  exact follows_pure (alike.insert name ⟨opened.name, stored⟩)

theorem follows_packageBlocks (rounds : Nat)
    {packages packages' : OrderedMap String (Located Package)}
    (alike : run.PackagesAlike packages packages') :
    run.Follows run.PackagesAlike (packageBlocks rounds packages)
      (packageBlocks rounds packages') := by
  induction rounds generalizing packages packages' with
  | zero => exact follows_pure alike
  | succ rounds ih =>
      refine follows_remaining.bind fun rest rest' beside => ?_
      refine .ite (by rw [isEmpty_eq beside]) (fun _ => follows_pure alike) fun _ => ?_
      exact (follows_packageBlock alike).bind fun _ _ alike => ih alike

end ApiCompat.Signature.Respacing
