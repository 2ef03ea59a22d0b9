import ApiCompat.Proofs.Signature.BlockLoop
import ApiCompat.Proofs.Signature.MemberGives
import ApiCompat.Proofs.Signature.SupertypeTakes
import ApiCompat.Signature.Read

/-!
# The classes and packages that are read

Everything that is read is stored under its own name, made of identifiers and
clear of clashes.
-/

set_option autoImplicit false

namespace ApiCompat.Signature

open Reader

/-! ## Blocks -/

section Blocks

variable {κ α : Type} [DecidableEq κ] {key : α → κ} {item : Reader (Located α)}

/-- Everything is stored under its key and has the property. -/
def Stores (key : α → κ) (holds : α → Prop) (map : OrderedMap κ (Located α)) : Prop :=
  ∀ entry ∈ map.entries, entry.1 = key entry.2.item ∧ holds entry.2.item

omit [DecidableEq κ] in
theorem stores_empty {holds : α → Prop} : Stores key holds .empty := by
  intro entry member
  cases member

theorem Stores.insert {holds : α → Prop} {map : OrderedMap κ (Located α)}
    (stores : Stores key holds map) {found : Located α} (good : holds found.item) {name : κ}
    (named : name = key found.item) : Stores key holds (map.insert name found) := by
  intro entry member
  rcases OrderedMap.mem_entries_insert member with before | rfl
  · exact stores entry before
  · exact ⟨named, good⟩

omit [DecidableEq κ] in
theorem Stores.values {holds : α → Prop} {map : OrderedMap κ (Located α)}
    (stores : Stores key holds map) : ∀ value ∈ map.values, holds value.item := by
  intro value stored
  obtain ⟨name, entry⟩ := (map.mem_values_iff value).mp stored
  exact (stores _ entry).2

theorem yields_block {line : Nat} {unterminated : Reason} {duplicate : Located α → Reason}
    {body : Nat → OrderedMap κ (Located α) → Reader (OrderedMap κ (Located α))}
    {holds : α → Prop} (loop : BlockLoop key item line unterminated duplicate body)
    (yieldsItem : Yields item fun found => holds found.item) (rounds : Nat)
    {map : OrderedMap κ (Located α)} (stores : Stores key holds map) :
    Yields (body rounds map) (Stores key holds) := by
  induction rounds generalizing map with
  | zero =>
      rw [loop.zero]
      exact gives_failAt
  | succ rounds ih =>
      rw [loop.step]
      refine gives_skip.anywhere.bind fun closed => ?_
      cases closed with
      | true => exact gives_pure fun _ _ => stores
      | false =>
          refine gives_remaining.bind fun lexemes => ?_
          apply Gives.anywhere
          show Yields (if lexemes.isEmpty = true then _ else _) _
          split
          · exact gives_failAt
          · rw [blockItem]
            refine yieldsItem.bind fun found good => ?_
            show Yields (if map.contains (key found.item) = true then _ else _) _
            split
            · exact gives_failAt
            · exact ih (stores.insert good rfl)

end Blocks

/-! ## Classes -/

theorem yields_classKind : Yields classKind fun _ => True := by
  refine gives_skipWord.anywhere.bind fun found => ?_
  cases found with
  | true => exact gives_pure fun _ _ => trivial
  | false =>
      refine gives_skipWord.anywhere.bind fun found => ?_
      cases found with
      | true => exact gives_pure fun _ _ => trivial
      | false =>
          refine gives_skipWord.anywhere.bind fun found => ?_
          cases found with
          | true => exact gives_pure fun _ _ => trivial
          | false =>
              intro context lexemes kind rest _ _ read
              simp only [Bool.false_eq_true, if_false] at read
              rw [bind_ok (remaining_apply context lexemes)] at read
              cases lexemes with
              | nil => cases read
              | cons sign later =>
                  cases later with
                  | nil => cases read
                  | cons word later =>
                      simp only at read
                      split at read
                      · rw [bind_ok (continueWith_apply context _ later)] at read
                        obtain ⟨_, rfl⟩ := pure_eq_ok read
                        exact ⟨(List.suffix_cons _ _).trans (List.suffix_cons _ _), trivial⟩
                      · cases read

theorem yields_typeListRest (rounds : Nat) :
    Yields (typeListRest rounds) fun types => ∀ type ∈ types, type.Formed AnyIdentifier := by
  induction rounds with
  | zero => exact gives_pure fun _ _ => List.forall_mem_nil _
  | succ rounds ih =>
      refine gives_skip.anywhere.bind fun _ => ?_
      refine gives_remaining.bind fun lexemes => Gives.anywhere ?_
      dsimp only
      split
      · exact gives_pure fun _ _ => List.forall_mem_nil _
      · split
        · exact gives_pure fun _ _ => List.forall_mem_nil _
        · refine yields_plainType.bind fun first formed => ?_
          refine ih.bind fun later inLater => gives_pure fun _ _ type member => ?_
          rcases List.mem_cons.mp member with rfl | member
          · exact formed
          · exact inLater type member

theorem yields_typeList :
    Yields typeList fun types => ∀ type ∈ types, type.Formed AnyIdentifier := by
  refine yields_plainType.bind fun first formed => ?_
  refine gives_remaining.bind fun lexemes => ?_
  refine (yields_typeListRest lexemes.length).anywhere.bind fun later => gives_pure ?_
  intro _ inLater type member
  rcases List.mem_cons.mp member with rfl | member
  · exact formed
  · exact inLater type member

theorem yields_supertypeClauses (kind : ClassKind) :
    Yields (supertypeClauses kind) fun found =>
      (∀ type ∈ found.1, type.Formed AnyIdentifier) ∧
        (∀ type ∈ found.2.toList, type.Formed AnyIdentifier) ∧
        (kind = .interfaceKind → found.1 = none) := by
  have extended : Yields (extendsClause kind) fun found =>
      (∀ type ∈ found.1, type.Formed AnyIdentifier) ∧
        (∀ type ∈ found.2, type.Formed AnyIdentifier) ∧
        (kind = .interfaceKind → found.1 = none) := by
    refine gives_skipWord.anywhere.bind fun found => ?_
    cases found with
    | false => exact gives_pure fun _ _ => ⟨by simp, List.forall_mem_nil _, fun _ => rfl⟩
    | true =>
        by_cases isInterface : kind = .interfaceKind
        · simp only [isInterface, if_true]
          exact yields_typeList.anywhere.bind fun types =>
            gives_pure fun _ formed => ⟨by simp, formed, fun _ => rfl⟩
        · simp only [isInterface, if_true, if_false]
          refine yields_plainType.anywhere.bind fun type =>
            gives_pure fun _ formed => ⟨?_, nofun, nofun⟩
          intro type' same
          obtain rfl := Option.some.inj same
          exact formed
  have implemented : Yields implementsClause fun types =>
      ∀ type ∈ types, type.Formed AnyIdentifier := by
    refine gives_skipWord.anywhere.bind fun found => ?_
    cases found with
    | false => exact gives_pure fun _ _ => List.forall_mem_nil _
    | true => exact yields_typeList.anywhere
  rw [supertypeClauses_eq]
  refine extended.bind fun pair formed => ?_
  obtain ⟨superclass, types⟩ := pair
  obtain ⟨formedSuperclass, formedTypes, noSuperclass⟩ := formed
  refine implemented.bind fun others formedOthers => gives_pure fun _ _ => ?_
  refine ⟨formedSuperclass, fun type member => ?_, noSuperclass⟩
  rcases OrderedSet.mem_insertAll member with listed | listed
  · rcases OrderedSet.mem_insertAll listed with nowhere | listed
    · cases nowhere
    · exact formedTypes type listed
  · exact formedOthers type listed

structure ReadClass (package : String) (cls : ClassDecl) : Prop where
  formed : cls.Formed AnyIdentifier
  keyed : cls.Keyed
  qualified : cls.qualifiedName = qualify package cls.name
  clear : ∀ member ∈ cls.members.values, member.item.Clear

theorem yields_classBody (line : Nat) (owner : String) (rounds : Nat) :
    Yields (classBody line owner rounds .empty)
      (Stores Member.key fun member => member.Formed AnyIdentifier ∧ member.Clear) :=
  yields_block (blockLoop_classBody line owner) yields_member rounds stores_empty

theorem yields_classDecl (package : String) :
    Yields (classDecl package) fun found => ReadClass package found.item := by
  refine gives_currentLine.bind fun line => ?_
  refine yields_preamble.bind fun front formedModifiers => ?_
  refine yields_classKind.bind fun kind _ => ?_
  refine yields_qualifiedName.bind fun name dotted => ?_
  refine gives_typeParams.bind fun typeParams => gives_of fun formedParams => ?_
  refine (yields_supertypeClauses kind).anywhere.bind fun supertypes => Yields.of fun formed => ?_
  obtain ⟨superclass, interfaces⟩ := supertypes
  obtain ⟨formedSuperclass, formedInterfaces, noSuperclass⟩ := formed
  refine yields_expect.bind fun _ _ => ?_
  refine gives_remaining.bind fun lexemes => ?_
  refine (yields_classBody line _ lexemes.length).anywhere.bind fun members => gives_pure ?_
  intro _ stores
  have inMembers := stores.values
  constructor
  · exact ⟨dotted, formedModifiers, formedParams, formedSuperclass, formedInterfaces, noSuperclass,
      fun member stored => (inMembers member stored).1⟩
  · exact fun entry stored => (stores entry stored).1
  · rfl
  · exact fun member stored => (inMembers member stored).2

/-! ## Packages -/

structure ReadPackage (package : Package) : Prop where
  name : DottedName AnyIdentifier package.name
  classes : Stores ClassDecl.name (ReadClass package.name) package.classes

theorem yields_packageBody (line : Nat) (package : String) (rounds : Nat)
    {classes : OrderedMap String (Located ClassDecl)}
    (stores : Stores ClassDecl.name (ReadClass package) classes) :
    Yields (packageBody line package rounds classes)
      (Stores ClassDecl.name (ReadClass package)) :=
  yields_block (blockLoop_packageBody line package) (yields_classDecl package) rounds stores

theorem yields_packageBlock {packages : OrderedMap String (Located Package)}
    (stores : Stores Package.name ReadPackage packages) :
    Yields (packageBlock packages) (Stores Package.name ReadPackage) := by
  refine gives_currentLine.bind fun line => ?_
  refine gives_skipWord.anywhere.bind fun found => ?_
  cases found with
  | false => exact gives_unexpected
  | true =>
      refine yields_qualifiedName.anywhere.bind fun name => Yields.of fun dotted => ?_
      refine yields_expect.bind fun _ _ => ?_
      refine gives_remaining.bind fun lexemes => Gives.anywhere ?_
      obtain ⟨opened, reopened⟩ : ∃ opened : Located Package,
          (packages.get? name).getD { line, item := { name } } = opened := ⟨_, rfl⟩
      have before : opened.item.name = name ∧
          Stores ClassDecl.name (ReadClass name) opened.item.classes := by
        rw [← reopened]
        cases present : packages.get? name with
        | none => exact ⟨rfl, stores_empty⟩
        | some package =>
            obtain ⟨sameName, read⟩ :=
              stores _ ((packages.get?_eq_some_iff name package).mp present)
            have sameName : name = package.item.name := sameName
            exact ⟨sameName.symm, sameName ▸ read.classes⟩
      obtain ⟨rfl, stored⟩ := before
      simp only [reopened]
      refine (yields_packageBody line opened.item.name lexemes.length stored).bind
        fun classes after => gives_pure fun _ _ => ?_
      have good : ReadPackage { opened.item with classes } := ⟨dotted, after⟩
      exact stores.insert good rfl

theorem yields_packageBlocks (rounds : Nat) {packages : OrderedMap String (Located Package)}
    (stores : Stores Package.name ReadPackage packages) :
    Yields (packageBlocks rounds packages) (Stores Package.name ReadPackage) := by
  induction rounds generalizing packages with
  | zero => exact gives_pure fun _ _ => stores
  | succ rounds ih =>
      refine gives_remaining.bind fun lexemes => Gives.anywhere ?_
      show Yields (if lexemes.isEmpty = true then _ else _) _
      split
      · exact gives_pure fun _ _ => stores
      · exact (yields_packageBlock stores).bind fun packages after => ih after

/-! ## Whole texts -/

theorem ReadPackage.formed {package : Package} (read : ReadPackage package) :
    package.Formed AnyIdentifier where
  name := read.name
  qualified cls stored := (read.classes.values cls stored).qualified
  classes cls stored := (read.classes.values cls stored).formed

theorem ReadPackage.keyed {package : Package} (read : ReadPackage package) : package.Keyed :=
  fun entry stored => ⟨(read.classes entry stored).1, (read.classes entry stored).2.keyed⟩

theorem stores_of_readPackages {mode : NullMode} {lexemes : List Lexeme} (lexed : Lexed lexemes)
    {packages : OrderedMap String (Located Package)}
    (found : readPackages mode lexemes = .ok packages) :
    Stores Package.name ReadPackage packages := by
  simp only [readPackages] at found
  split at found
  · next packages' rest blocks =>
      obtain rfl := Except.ok.inj found
      exact (yields_packageBlocks lexemes.length stores_empty _ lexemes packages' rest lexed trivial
        blocks).2
  · cases found

/-- Whatever text it is, what is read from it is stored under its names, made of
identifiers and clear of clashes. -/
theorem formed_of_read {source text : String} {requested : Option NullMode} {api : Api}
    (whole : read source text requested = .ok api) :
    api.Formed AnyIdentifier ∧ api.Clear := by
  unfold read at whole
  split at whole
  · cases whole
  · next mode _ =>
      split at whole
      · cases whole
      · next lexemes tokenized =>
          split at whole
          · cases whole
          · next packages found =>
              obtain rfl := Except.ok.inj whole
              have stores := stores_of_readPackages (lexed_of_tokenize tokenized) found
              refine ⟨⟨fun entry stored => ?_, fun package stored => ?_⟩, ?_⟩
              · exact ⟨(stores entry stored).1, (stores entry stored).2.keyed⟩
              · exact (stores.values package stored).formed
              · intro package stored cls inPackage
                exact ((stores.values package stored).classes.values cls inPackage).clear

end ApiCompat.Signature
