import ApiCompat.Proofs.Accepts.Members
import ApiCompat.Proofs.Api.Merge
import ApiCompat.Proofs.Signature.ClassTakes

/-!
# Classes and packages of the documented grammar are read

Supertypes are read one by one, with or without commas, as the types of the
tree.  A block is read as the classes of its tree, each under its name and with
the members of its tree.
-/

set_option autoImplicit false

namespace ApiCompat

namespace Grammar.TypeTree

open Signature

/-- Whether a type ends is decided by the next word. -/
theorem EndsBefore.congr {back later : List Word} (same : back.head? = later.head?) :
    (type : TypeTree) → type.EndsBefore back → type.EndsBefore later
  | named _ _ _ _ ending, ends => by
      have ends : ending.Closed ∨ EndsType back := ends
      show ending.Closed ∨ EndsType later
      rwa [EndsType, ← same]
  | wildcard _ .unbounded _, ends => by
      have ends : EndsWildcard back := ends
      show EndsWildcard later
      rwa [EndsWildcard, NotNextWord, NotNextWord, ← same]
  | wildcard _ (.upper bound) _, ends => EndsBefore.congr same bound ends
  | wildcard _ (.lower bound) _, ends => EndsBefore.congr same bound ends

/-- What follows the words of a type does not matter in front of them. -/
theorem head?_words_append (type : TypeTree) (later : List Word) :
    (type.words ++ later).head? = type.words.head? := by
  have filled := type.length_words_pos
  cases shape : type.words with
  | nil => simp [shape] at filled
  | cons word words => rfl

end Grammar.TypeTree

namespace Grammar.SupertypesTree

def extended (supertypes : SupertypesTree) : Option TypeTree :=
  supertypes.extension.map fun extension =>
    match extension with
    | .superclass type => type
    | .interfaces list => list.first

/-- What is extended is the superclass, if it is not by an interface. -/
def superclassOf (kind : ClassKind) (supertypes : SupertypesTree) : Option TypeTree :=
  if kind = .interfaceKind then none else supertypes.extended

def extendedInterfaces (kind : ClassKind) (supertypes : SupertypesTree) : List TypeTree :=
  if kind = .interfaceKind then supertypes.extended.toList else []

def implementedTypes (supertypes : SupertypesTree) : List TypeTree :=
  supertypes.implemented.elim [] TypeListTree.types

def clausesIn (mode : NullMode) (kind : ClassKind) (supertypes : SupertypesTree) :
    Option TypeRef × OrderedSet TypeRef :=
  ((supertypes.superclassOf kind).map (TypeTree.plainIn mode),
    .ofList ((supertypes.extendedInterfaces kind ++ supertypes.implementedTypes).map
      (TypeTree.plainIn mode)))

end Grammar.SupertypesTree

namespace Signature

open Reader Grammar

variable {mode : NullMode} {good : Prop} {back : List Word}

/-! ## Supertypes -/

theorem StopsTypes.noExtends (stops : StopsTypes back) : NotNextWord "extends" back := by
  obtain ⟨word, later, rfl, isBrace | rfl⟩ := stops
  · simp [isBrace]
  · simp [Word.ident]

/-- What follows one of the listed types. -/
theorem endsBefore_listed {before : TypeTree} {later : List ListedType}
    (clear : ClearList before later) (stops : StopsTypes back) :
    before.EndsBefore (later.flatMap ListedType.words ++ back) := by
  cases later with
  | nil => exact TypeTree.endsBefore_of stops.endsSupertype.1 stops.endsSupertype.2 before
  | cons listed later =>
      obtain ⟨comma, type⟩ := listed
      cases comma with
      | true =>
          have ends := endsSupertype_comma (type.words ++ later.flatMap ListedType.words ++ back)
          exact TypeTree.endsBefore_of ends.1 ends.2 before
      | false =>
          refine TypeTree.EndsBefore.congr ?_ before (clear.2.1 rfl)
          rw [List.flatMap_cons, List.append_assoc]
          exact (type.head?_words_append _).symm

theorem takes_listedTrees {before : TypeTree} {later : List ListedType}
    (clear : ClearList before later)
    (sound : ∀ occurrence ∈ plainOccurrences (later.map ListedType.type), occurrence.Sound)
    (stops : StopsTypes back) {rounds : Nat} (enough : later.length < rounds) :
    Takes mode good (typeListRest rounds) (later.flatMap ListedType.words) back
      (· = (later.map ListedType.type).map (TypeTree.plainIn mode)) := by
  induction later generalizing before rounds with
  | nil =>
      cases rounds with
      | zero => simp at enough
      | succ rounds =>
          rw [typeListRest_succ]
          exact Takes.peek (takes_skip_not stops.noComma) fun _ _ => takes_typeListStep_stop stops
  | cons listed later ih =>
      cases rounds with
      | zero => simp at enough
      | succ rounds =>
          obtain ⟨comma, type⟩ := listed
          obtain ⟨noWord, _, clearLater⟩ := clear
          have words : List.flatMap ListedType.words (⟨comma, type⟩ :: later) =
              commaWords comma ++ (type.words ++ later.flatMap ListedType.words) := by
            simp [ListedType.words]
          have noComma : NotNext .comma
              (type.words ++ later.flatMap ListedType.words ++ back) := by
            rw [List.append_assoc]
            exact notNext_treeWords type (by decide) (by decide) (by decide)
          have skipped : Takes mode good (skip? .comma) (commaWords comma)
              (type.words ++ later.flatMap ListedType.words ++ back) fun _ => True := by
            cases comma with
            | true => exact (takes_skip rfl).mono fun _ _ => trivial
            | false => exact (takes_skip_not noComma).mono fun _ _ => trivial
          rw [typeListRest_succ, words]
          refine skipped.bind fun _ _ => ?_
          rw [List.map_cons, plainOccurrences, List.flatMap_cons, List.forall_mem_append] at sound
          refine takes_typeListStep ?_ ?_ ?_ ?_
          · rw [List.append_assoc]
            exact notNext_treeWords type (by decide) (by decide) (by decide)
          · rw [List.append_assoc, NotNextWord, type.head?_words_append]
            exact noWord
          · obtain ⟨word, more, rfl, _⟩ := stops
            simp
          · refine (takes_typeTree sound.1 (endsBefore_listed clearLater stops)).bind
              fun first same => ?_
            subst same
            refine (ih clearLater sound.2 (Nat.lt_of_succ_lt_succ enough)).last
              fun behind same => ?_
            subst same
            exact takes_pure rfl

theorem length_le_listed (later : List ListedType) :
    later.length ≤ (later.flatMap ListedType.words).length := by
  induction later with
  | nil => exact Nat.le_refl 0
  | cons listed later ih =>
      have positive := listed.type.length_words_pos
      simp only [List.flatMap_cons, ListedType.words, List.length_append, List.length_cons]
      omega

theorem takes_typeListTree {first : TypeTree} {later : List ListedType}
    (clear : ClearList first later)
    (sound : ∀ occurrence ∈ plainOccurrences (first :: later.map ListedType.type),
      occurrence.Sound)
    (stops : StopsTypes back) :
    Takes mode good typeList (first.words ++ later.flatMap ListedType.words) back
      (· = (first :: later.map ListedType.type).map (TypeTree.plainIn mode)) := by
  rw [plainOccurrences, List.flatMap_cons, List.forall_mem_append] at sound
  refine (takes_typeTree sound.1 (endsBefore_listed clear stops)).bind fun found same => ?_
  subst same
  refine Takes.peek takes_remaining fun lexemes spells => ?_
  have enough : later.length < lexemes.length := by
    have bound := length_le_listed later
    obtain ⟨word, more, rfl, _⟩ := stops
    rw [← spells.length_eq]
    simp only [List.length_append, List.length_cons]
    omega
  refine (takes_listedTrees clear sound.2 stops enough).last fun behind same => ?_
  subst same
  exact takes_pure rfl

/-- A single type is extended by a class and by an interface. -/
theorem takes_extended_single {kind : ClassKind} {type : TypeTree}
    (sound : ∀ occurrence ∈ type.occurrences none, occurrence.Sound) (stops : StopsTypes back) :
    Takes mode good (extendsClause kind) (.ident "extends" :: type.words) back
      (· = if kind = .interfaceKind then (none, [type.plainIn mode])
        else (some (type.plainIn mode), [])) := by
  refine (takes_skipWord "extends").bind_word fun found taken => ?_
  subst taken
  by_cases isInterface : kind = .interfaceKind
  · simp only [isInterface, if_true]
    have alone : ClearList type [] := trivial
    have single : Takes mode good typeList (type.words ++ []) back (· = [type.plainIn mode]) :=
      takes_typeListTree alone (by simpa [plainOccurrences] using sound) stops
    rw [List.append_nil] at single
    refine single.last fun found same => ?_
    subst same
    exact takes_pure rfl
  · simp only [isInterface, if_true, if_false]
    have ends := stops.endsSupertype
    refine (takes_typeTree sound (TypeTree.endsBefore_of ends.1 ends.2 type)).last
      fun found same => ?_
    subst same
    exact takes_pure rfl

theorem takes_extension {kind : ClassKind} {supertypes : SupertypesTree}
    (documented : supertypes.Documented)
    (inSuperclass : ∀ occurrence ∈ plainOccurrences supertypes.superclass.toList,
      occurrence.Sound)
    (inInterfaces : ∀ occurrence ∈ plainOccurrences supertypes.interfaces, occurrence.Sound)
    (stops : StopsTypes back) :
    Takes mode good (extendsClause kind)
      (clauseWords "extends" (supertypes.extension.map ExtendsTree.words)) back
      (· = ((supertypes.superclassOf kind).map (TypeTree.plainIn mode),
        (supertypes.extendedInterfaces kind).map (TypeTree.plainIn mode))) := by
  obtain ⟨extension, implemented⟩ := supertypes
  have single {type : TypeTree} (isSingle : (SupertypesTree.mk extension implemented).extended =
      some type) : (if kind = .interfaceKind then (none, [type.plainIn mode])
        else (some (type.plainIn mode), [])) =
      (((SupertypesTree.mk extension implemented).superclassOf kind).map (TypeTree.plainIn mode),
        ((SupertypesTree.mk extension implemented).extendedInterfaces kind).map
          (TypeTree.plainIn mode)) := by
    rw [SupertypesTree.superclassOf, SupertypesTree.extendedInterfaces, isSingle]
    split <;> rfl
  cases extension with
  | none =>
      refine (takes_extendsClause_none stops.noExtends).mono fun found same => ?_
      rw [same, SupertypesTree.superclassOf, SupertypesTree.extendedInterfaces]
      simp [SupertypesTree.extended]
  | some extension =>
      cases extension with
      | superclass type =>
          rw [← single rfl]
          exact takes_extended_single (fun occurrence member => inSuperclass occurrence
            (List.mem_flatMap.mpr ⟨type, List.mem_singleton.mpr rfl, member⟩)) stops
      | interfaces list =>
          obtain ⟨first, later, trailing⟩ := list
          obtain ⟨rfl, rfl⟩ : later = [] ∧ trailing = false := documented.extended _ rfl
          have words : clauseWords "extends" (some (ExtendsTree.interfaces
              ⟨first, [], false⟩).words) = .ident "extends" :: first.words := by
            simp [clauseWords, ExtendsTree.words, TypeListTree.words, commaWords]
          rw [Option.map_some, words, ← single rfl]
          exact takes_extended_single (fun occurrence member => inInterfaces occurrence
            (List.mem_flatMap.mpr ⟨first, List.mem_cons_self, member⟩)) stops

theorem takes_implementedTrees {supertypes : SupertypesTree} (documented : supertypes.Documented)
    (inInterfaces : ∀ occurrence ∈ plainOccurrences supertypes.interfaces, occurrence.Sound)
    (clear : ∀ list ∈ supertypes.implemented, ClearList list.first list.later)
    (later : List Word) :
    Takes mode good implementsClause
      (clauseWords "implements" (supertypes.implemented.map TypeListTree.words))
      (.leftBrace :: later) (· = supertypes.implementedTypes.map (TypeTree.plainIn mode)) := by
  have stops : StopsTypes (.leftBrace :: later) := ⟨_, _, rfl, .inl rfl⟩
  obtain ⟨extension, implemented⟩ := supertypes
  cases implemented with
  | none =>
      refine takes_implementsClause_none ?_
      simp [Word.leftBrace, Word.punctuation]
  | some list =>
      obtain ⟨first, others, trailing⟩ := list
      obtain rfl : trailing = false := documented.implemented _ rfl
      have words : clauseWords "implements" (some (TypeListTree.words ⟨first, others, false⟩)) =
          .ident "implements" :: (first.words ++ others.flatMap ListedType.words) := by
        simp [clauseWords, TypeListTree.words, commaWords]
      have sound : ∀ occurrence ∈ plainOccurrences (first :: others.map ListedType.type),
          occurrence.Sound := by
        intro occurrence member
        refine inInterfaces occurrence ?_
        rw [SupertypesTree.interfaces, plainOccurrences, List.flatMap_append]
        exact List.mem_append_right _ member
      rw [Option.map_some, words]
      refine (takes_skipWord "implements").bind_word fun found taken => ?_
      subst taken
      exact takes_typeListTree (clear _ rfl) sound stops

theorem stopsTypes_implemented (implemented : Option TypeListTree) (later : List Word) :
    StopsTypes (clauseWords "implements" (implemented.map TypeListTree.words) ++
      .leftBrace :: later) := by
  cases implemented with
  | none => exact ⟨_, _, rfl, .inl rfl⟩
  | some list => exact ⟨_, _, rfl, .inr rfl⟩

theorem takes_supertypeTrees {kind : ClassKind} {supertypes : SupertypesTree}
    (documented : supertypes.Documented)
    (inSuperclass : ∀ occurrence ∈ plainOccurrences supertypes.superclass.toList,
      occurrence.Sound)
    (inInterfaces : ∀ occurrence ∈ plainOccurrences supertypes.interfaces, occurrence.Sound)
    (clear : ∀ list ∈ supertypes.implemented, ClearList list.first list.later)
    (later : List Word) :
    Takes mode good (supertypeClauses kind) supertypes.words (.leftBrace :: later)
      (· = supertypes.clausesIn mode kind) := by
  rw [supertypeClauses_eq]
  refine (takes_extension documented inSuperclass inInterfaces
    (stopsTypes_implemented supertypes.implemented later)).bind fun found same => ?_
  subst same
  refine (takes_implementedTrees documented inInterfaces clear later).last fun found same => ?_
  subst same
  refine takes_pure ?_
  rw [SupertypesTree.clausesIn, List.map_append, OrderedSet.ofList, OrderedSet.ofList,
    OrderedSet.insertAll, OrderedSet.insertAll, OrderedSet.insertAll, List.foldl_append]

/-! ## Classes -/

theorem starts_memberTree (member : MemberTree) : Starts member.words :=
  ⟨_, _, rfl, TokenKind.noConfusion⟩

theorem takes_memberTrees {members : List (Located MemberTree)} {line : Nat} {owner : String}
    (takesMember : ∀ told ∈ members, ∀ back, Takes mode good Signature.member told.item.words back
      fun found => found.item.key = told.item.key)
    (distinct : (members.map fun told => told.item.key).Nodup) {rounds : Nat}
    (enough : members.length < rounds) :
    Takes mode good (classBody line owner rounds .empty)
      ((members.flatMap fun told => told.item.words) ++ [.rightBrace]) back fun found =>
        found.keys = members.map fun told => told.item.key := by
  refine (takes_block Member.key MemberTree.key
    (fun found told => found.item.key = told.item.key) (blockLoop_classBody line owner)
    (fun _ _ same => same) takesMember (fun told _ => starts_memberTree told.item) .empty distinct
    enough).mono ?_
  rintro result ⟨founds, told, entries⟩
  have keys : result.keys = founds.map fun found => found.item.key := by
    rw [OrderedMap.keys, entries]
    simp [OrderedMap.empty]
  exact keys.trans (map_eq_of_forall₂ (fun _ _ same => same) told)

theorem notNext_listWords {kind : TokenKind} (params : List TypeParamTree) (other : kind ≠ .less)
    (stop : NotNext kind back) : NotNext kind (TypeParamTree.listWords params ++ back) := by
  rw [listWords_eq_enclosed]
  exact notNext_enclosedWords _ other stop

theorem notNext_supertypeTrees {kind : TokenKind} (supertypes : SupertypesTree)
    (other : kind ≠ .identifier) (stop : NotNext kind back) :
    NotNext kind (supertypes.words ++ back) := by
  have clause : ∀ keyword words back, NotNext kind back →
      NotNext kind (clauseWords keyword words ++ back) := by
    intro keyword words back stop
    cases words with
    | none => exact stop
    | some words => exact notNext_of_ne other.symm
  rw [SupertypesTree.words, List.append_assoc]
  exact clause _ _ _ (clause _ _ _ stop)

end Signature

namespace Grammar

/-- A class as it is declared by a tree, with members under the keys of the tree. -/
structure ClassTree.DeclaredAs (mode : NullMode) (told : ClassTree) (found : ClassDecl) : Prop where
  name : found.name = told.name.text
  kind : found.kind = told.kind
  typeParams : found.typeParams = told.typeParams.map (TypeParamTree.paramIn mode)
  supertypes : (found.superclass, found.interfaces) = told.supertypes.clausesIn mode told.kind
  keys : found.members.keys = told.members.map fun member => member.item.key

/-- The types of a class can be read, and so can those of its members. -/
theorem ClassTree.sound {cls : ClassTree} (documented : cls.Documented) (clear : cls.Clear) :
    ∀ occurrence ∈ cls.occurrences, occurrence.Sound :=
  fun occurrence member =>
    ⟨documented.types occurrence member, clear.types occurrence member⟩

end Grammar

namespace Signature

open Reader Grammar

variable {mode : NullMode} {good : Prop} {back : List Word}

theorem takes_classTree {package : String} {cls : ClassTree} (documented : cls.Documented)
    (clear : cls.Clear) :
    Takes mode good (classDecl package) cls.words back
      fun found => cls.DeclaredAs mode found.item := by
  have sound := ClassTree.sound documented clear
  simp only [ClassTree.occurrences, List.forall_mem_append] at sound
  obtain ⟨inParams, inSuperclass, inInterfaces, inMembers⟩ := sound
  have takesMember : ∀ told ∈ cls.members, ∀ back, Takes mode good Signature.member
      told.item.words back fun found => found.item.key = told.item.key := by
    intro told member back
    refine takes_memberTree (fun name inner => documented.names name ?_)
      (fun occurrence inner => inMembers occurrence ?_) (documented.members told member)
      (clear.members told member)
    · have inNames : name ∈ cls.members.flatMap fun found => found.item.names :=
        List.mem_flatMap.mpr ⟨told, member, inner⟩
      simp only [ClassTree.names, List.mem_cons, List.mem_append]
      exact .inr (.inr (.inr (.inr inNames)))
    · exact List.mem_flatMap.mpr ⟨told, member, inner⟩
  rw [ClassTree.words, ClassTree.headWords]
  simp only [List.append_assoc]
  refine Takes.peek takes_currentLine fun line _ => ?_
  refine (takes_preambleTree clear.front clear.agree ?_).bind fun front _ => ?_
  · rw [List.append_assoc]
    exact ends_kindWords cls.kind _
  refine (takes_classKind cls.kind).bind fun found same => ?_
  subst same
  refine (takes_name _ cls.name ?_).bind fun found named => ?_
  · simp only [List.append_assoc]
    exact notNext_listWords _ (by decide) (notNext_supertypeTrees _ (by decide)
      (notNext_of_ne TokenKind.noConfusion))
  subst named
  refine (takes_paramTrees inParams ?_).bind fun params sameParams => ?_
  · simp only [List.append_assoc]
    exact notNext_supertypeTrees _ (by decide) (notNext_of_ne TokenKind.noConfusion)
  refine (takes_supertypeTrees documented.supertypes inSuperclass inInterfaces clear.listed
    _).bind fun supertypes sameSupertypes => ?_
  refine (takes_expect rfl).bind_word fun _ _ => ?_
  refine Takes.peek takes_remaining fun lexemes spells => ?_
  have enough : cls.members.length < lexemes.length :=
    length_lt_of_spells (fun told _ => starts_memberTree told.item) spells
  exact (takes_memberTrees takesMember documented.distinct enough).last fun members keys =>
    takes_pure ⟨rfl, rfl, sameParams, sameSupertypes, keys⟩

/-! ## Packages -/

theorem starts_classTree (cls : ClassTree) : Starts cls.words := by
  have kind : Starts (kindWords cls.kind) := by
    cases cls.kind <;> exact ⟨_, _, rfl, by decide⟩
  have front : Starts (frontWords cls.front ++ kindWords cls.kind) := by
    cases cls.front with
    | nil => exact kind
    | cons tree front => cases tree <;> exact ⟨_, _, rfl, TokenKind.noConfusion⟩
  have words : cls.words = frontWords cls.front ++ kindWords cls.kind ++ (cls.name.words ++
      (TypeParamTree.listWords cls.typeParams ++ (cls.supertypes.words ++ (.leftBrace ::
        (cls.members.flatMap (fun found => found.item.words) ++ [.rightBrace]))))) := by
    simp [ClassTree.words, ClassTree.headWords]
  rw [words]
  exact front.append _

theorem takes_classTrees {line : Nat} {package : String} {tolds : List (Located ClassTree)}
    (documented : ∀ told ∈ tolds, told.item.Documented) (clear : ∀ told ∈ tolds, told.item.Clear)
    (classes : OrderedMap String (Located ClassDecl))
    (distinct : (classes.keys ++ tolds.map fun told => told.item.name.text).Nodup) {rounds : Nat}
    (enough : tolds.length < rounds) :
    Takes mode good (packageBody line package rounds classes)
      ((tolds.flatMap fun told => told.item.words) ++ [.rightBrace]) back fun result =>
        ∃ founds, List.Forall₂ (fun found told => told.item.DeclaredAs mode found.item) founds tolds ∧
          result.entries = classes.entries ++ founds.map fun found => (found.item.name, found) :=
  takes_block ClassDecl.name (fun told => told.name.text)
    (fun found told => told.item.DeclaredAs mode found.item) (blockLoop_packageBody line package)
    (fun _ _ declared => declared.name)
    (fun told member _ => takes_classTree (documented told member) (clear told member))
    (fun told _ => starts_classTree told.item) classes distinct enough

end Signature

end ApiCompat
