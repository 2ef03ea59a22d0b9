import ApiCompat.Proofs.Api.Retells
import ApiCompat.Proofs.Signature.BlockLoop
import ApiCompat.Proofs.Signature.Misreads
import ApiCompat.Proofs.Signature.SupertypeTakes

/-!
# Reading written classes and packages

Blocks are read item by item, each under the key of the item from whose words
it was read.
-/

set_option autoImplicit false

namespace ApiCompat.Signature

open Reader

variable {mode : NullMode} {good : Prop} {back : List Word} {allowed : String → Prop}

/-! ## Blocks -/

section Blocks

variable {κ α τ : Type} [DecidableEq κ] (key : α → κ) (toldKey : τ → κ)
  (holds : Located α → Located τ → Prop) {item : Reader (Located α)} {words : τ → List Word}

/-- The closing brace is not taken for the beginning of an item. -/
def Starts (words : List Word) : Prop :=
  ∃ word later, words = word :: later ∧ word.kind ≠ .rightBrace

/-- What a loop that reads items up to the closing brace makes of the words of items. -/
theorem takes_block {line : Nat} {unterminated : Reason} {duplicate : Located α → Reason}
    {body : Nat → OrderedMap κ (Located α) → Reader (OrderedMap κ (Located α))}
    (loop : BlockLoop key item line unterminated duplicate body) {tolds : List (Located τ)}
    (sameKey : ∀ found told, holds found told → key found.item = toldKey told.item)
    (takesItem : ∀ told ∈ tolds, ∀ back, Takes mode good item (words told.item) back
      fun found => holds found told)
    (starts : ∀ told ∈ tolds, Starts (words told.item)) (map : OrderedMap κ (Located α))
    (distinct : (map.keys ++ tolds.map fun told => toldKey told.item).Nodup) {rounds : Nat}
    (enough : tolds.length < rounds) :
    Takes mode good (body rounds map)
      ((tolds.flatMap fun told => words told.item) ++ [.rightBrace]) back
      fun result => ∃ founds, List.Forall₂ holds founds tolds ∧
        result.entries = map.entries ++ founds.map fun found => (key found.item, found) := by
  induction tolds generalizing rounds map with
  | nil =>
      cases rounds with
      | zero => simp at enough
      | succ rounds =>
          rw [loop.step]
          refine (takes_skip rfl).last fun found closed => ?_
          subst closed
          exact takes_pure ⟨[], .nil, by simp⟩
  | cons told tolds ih =>
      cases rounds with
      | zero => simp at enough
      | succ rounds =>
          rw [loop.step, List.flatMap_cons, List.append_assoc]
          obtain ⟨word, later, shape, other⟩ := starts told List.mem_cons_self
          refine Takes.peek (takes_skip_not ?_) fun found none => ?_
          · rw [shape]
            exact notNext_of_ne other
          subst none
          refine Takes.peek takes_remaining fun lexemes spells => ?_
          have notEmpty : lexemes.isEmpty = false := by
            rw [shape] at spells
            cases spells
            rfl
          simp only [notEmpty, Bool.false_eq_true, if_false, blockItem]
          refine (takesItem told List.mem_cons_self _).bind fun found retold => ?_
          rw [List.map_cons, ← sameKey found told retold] at distinct
          have isNew := OrderedMap.contains_of_distinct distinct
          have inserted := map.entries_insert isNew found
          simp only [isNew, Bool.false_eq_true, if_false]
          refine (ih (fun next member => takesItem next (List.mem_cons_of_mem _ member))
            (fun next member => starts next (List.mem_cons_of_mem _ member)) _
            (OrderedMap.distinct_insert distinct found) (Nat.lt_of_succ_lt_succ enough)).mono ?_
          rintro result ⟨founds, later, entries⟩
          refine ⟨found :: founds, .cons retold later, ?_⟩
          rw [entries, inserted]
          simp

end Blocks

/-- Each item has a word of its own. -/
theorem length_le_of_starts {α : Type} {words : α → List Word} {tolds : List (Located α)}
    (starts : ∀ told ∈ tolds, Starts (words told.item)) :
    tolds.length ≤ (tolds.flatMap fun told => words told.item).length := by
  induction tolds with
  | nil => exact Nat.le_refl 0
  | cons told tolds ih =>
      obtain ⟨word, later, shape, _⟩ := starts told List.mem_cons_self
      have rest := ih fun next member => starts next (List.mem_cons_of_mem _ member)
      simp only [List.flatMap_cons, shape, List.length_append, List.length_cons]
      omega

/-- The lexemes are enough rounds for the items and the closing brace. -/
theorem length_lt_of_spells {α : Type} {words : α → List Word} {tolds : List (Located α)}
    (starts : ∀ told ∈ tolds, Starts (words told.item)) {lexemes : List Lexeme}
    (spells : Spells ((tolds.flatMap fun told => words told.item) ++ [.rightBrace] ++ back)
      lexemes) :
    tolds.length < lexemes.length := by
  have bound := length_le_of_starts starts
  rw [← spells.length_eq]
  simp only [List.length_append, List.length_cons]
  omega

/-! ## Classes -/

theorem starts_memberWords (mode : NullMode) (member : Member) :
    Starts (memberWords mode member) := by
  cases member with
  | constructor item => exact ⟨_, _, rfl, TokenKind.noConfusion⟩
  | method item => exact ⟨_, _, rfl, TokenKind.noConfusion⟩
  | field item => exact ⟨_, _, rfl, TokenKind.noConfusion⟩

theorem retells_members (idents : Identifiers allowed)
    {members : OrderedMap MemberKey (Located Member)}
    (formed : ∀ member ∈ members.values, member.item.Formed allowed)
    (clear : ∀ member ∈ members.values, member.item.Clear)
    (keyed : ∀ entry ∈ members.entries, entry.1 = entry.2.item.key) (line : Nat) (owner : String)
    {rounds : Nat} (enough : members.values.length < rounds) :
    Takes mode (∀ told ∈ members.values, told.item.Rereadable) (classBody line owner rounds .empty)
      ((members.values.flatMap fun told => memberWords mode told.item) ++ [.rightBrace]) back
      fun found => Retells (∀ told ∈ members.values, told.item.Rereadable)
        (fun map : OrderedMap MemberKey (Located Member) => map.mapValues Located.unplaced)
        (fun map other => map.sameEntries (fun found told => found.item == told.item) other)
        found members := by
  have distinct : ((OrderedMap.empty : OrderedMap MemberKey (Located Member)).keys ++
      members.values.map fun told => told.item.key).Nodup :=
    members.nodup_map_values _ keyed
  refine (takes_block Member.key Member.key
    (Retold Member.key Member.Rereadable id fun found told => found == told)
    (blockLoop_classBody line owner) (fun _ _ retold => retold.1) ?_
    (fun told _ => starts_memberWords mode told.item) .empty distinct enough).mono ?_
  · intro told stored back
    refine ((retells_member idents (formed told stored) (clear told stored)).weaken
      fun allGood => allGood told stored).mono ?_
    rintro found ⟨sameKey, equal⟩
    exact ⟨sameKey, fun good => equal.mpr good, fun same => equal.mp (by simpa using same)⟩
  · rintro result ⟨founds, retold, entries⟩
    exact retells_map keyed entries retold

theorem takes_classKind (kind : ClassKind) :
    Takes mode good classKind (kindWords kind) back (· = kind) := by
  have notWord : ∀ {word text : String} {later : List Word}, word ≠ text →
      NotNextWord text (.ident word :: later) := by
    intro word text later other
    simp [Word.ident, other]
  cases kind with
  | classKind =>
      refine (takes_skipWord "class").last fun found taken => ?_
      subst taken
      exact takes_pure rfl
  | interfaceKind =>
      refine Takes.peek (takes_skipWord_not (notWord (by decide))) fun found none => ?_
      subst none
      refine (takes_skipWord "interface").last fun found taken => ?_
      subst taken
      exact takes_pure rfl
  | enumKind =>
      refine Takes.peek (takes_skipWord_not (notWord (by decide))) fun found none => ?_
      subst none
      refine Takes.peek (takes_skipWord_not (notWord (by decide))) fun found none => ?_
      subst none
      refine (takes_skipWord "enum").last fun found taken => ?_
      subst taken
      exact takes_pure rfl
  | annotationKind =>
      have notSign : ∀ text later, NotNextWord text (.atSign :: later) := by
        intro text later
        simp [Word.atSign, Word.punctuation]
      refine Takes.peek (takes_skipWord_not (notSign _ _)) fun found none => ?_
      subst none
      refine Takes.peek (takes_skipWord_not (notSign _ _)) fun found none => ?_
      subst none
      refine Takes.peek (takes_skipWord_not (notSign _ _)) fun found none => ?_
      subst none
      intro context taken rest _ spells _
      cases spells with
      | @cons _ sign _ _ signed spells =>
          cases spells with
          | @cons _ word _ _ named spells =>
              cases spells
              have kind : sign.kind = .atSign := signed.1
              have text : word.text = "interface" := named.2.1
              refine .inl ⟨.annotationKind, ?_, rfl⟩
              simp only [Bool.false_eq_true, if_false]
              rw [bind_ok (remaining_apply context _)]
              simp only [List.cons_append, List.nil_append, kind, text, and_self, if_true]
              rw [bind_ok (continueWith_apply context _ rest)]
              rfl

theorem ends_kindWords (kind : ClassKind) (later : List Word) :
    EndsPreamble (kindWords kind ++ later) ∧ EndsAnnotation (kindWords kind ++ later) := by
  cases kind with
  | classKind => exact ends_ident (by decide) later
  | interfaceKind => exact ends_ident (by decide) later
  | enumKind => exact ends_ident (by decide) later
  | annotationKind =>
      refine ⟨?_, endsAnnotation_of_ne TokenKind.noConfusion TokenKind.noConfusion⟩
      intro word next
      obtain rfl := Option.some.inj next
      exact ⟨fun _ => ⟨_, rfl, rfl⟩, TokenKind.noConfusion⟩

theorem notNext_typesWords {kind : TokenKind} (other : kind ≠ .identifier) (keyword : String)
    (types : List TypeRef) (stop : NotNext kind back) :
    NotNext kind (typesWords mode keyword types ++ back) := by
  cases types with
  | nil => exact stop
  | cons type types => exact notNext_of_ne other.symm

theorem notNext_supertypeWords {kind : TokenKind} (other : kind ≠ .identifier) (of : ClassKind)
    (superclass : Option TypeRef) (interfaces : List TypeRef) (stop : NotNext kind back) :
    NotNext kind (supertypeWords mode of superclass interfaces ++ back) := by
  rw [supertypeWords, List.append_assoc]
  exact notNext_typesWords other _ _ (notNext_typesWords other _ _ stop)

theorem notNext_typeParamsWords {kind : TokenKind} (other : kind ≠ .less) (params : List TypeParam)
    (stop : NotNext kind back) : NotNext kind (typeParamsWords mode params ++ back) := by
  cases params with
  | nil => exact stop
  | cons param params => exact notNext_of_ne other.symm

theorem retells_class (idents : Identifiers allowed) {package : String} {cls : ClassDecl}
    (formed : cls.Formed allowed) (keyed : cls.Keyed)
    (clear : ∀ member ∈ cls.members.values, member.item.Clear)
    (qualified : cls.qualifiedName = qualify package cls.name) :
    Takes mode (cls.Rereadable mode) (classDecl package) (classWords mode cls) back fun found =>
      found.item.name = cls.name ∧
        Retells (cls.Rereadable mode) ClassDecl.unplaced ClassDecl.same found.item cls := by
  obtain ⟨name, qualifiedName, kind, modifiers, typeParams, superclass, interfaces, members⟩ := cls
  simp only at qualified
  subst qualified
  have starts : ∀ told ∈ members.values, Starts (memberWords mode told.item) :=
    fun told _ => starts_memberWords mode told.item
  refine Takes.peek takes_currentLine fun line _ => ?_
  refine (takes_preamble formed.modifiers none ?_).bind fun front same => ?_
  · rw [List.append_assoc]
    exact ends_kindWords kind _
  subst same
  refine (takes_classKind kind).bind fun found same => ?_
  subst same
  refine (takes_qualifiedName _ name ?_).bind fun found same => ?_
  · simp only [List.append_assoc]
    exact notNext_typeParamsWords (by decide) _ (notNext_supertypeWords (by decide) _ _ _
      (notNext_of_ne TokenKind.noConfusion))
  subst same
  refine (takes_typeParams idents formed.typeParams ?_).bind fun found same => ?_
  · simp only [List.append_assoc]
    exact notNext_supertypeWords (by decide) _ _ _ (notNext_of_ne TokenKind.noConfusion)
  subst same
  by_cases inOrder : ∀ type ∈ interfaces.toList.tail, type.beginsWithImplements mode = false
  · refine (takes_supertypeClauses idents formed.superclass formed.interfaces formed.noSuperclass
      inOrder _).bind fun found same => ?_
    subst same
    refine (takes_expect rfl).bind_word fun _ _ => ?_
    refine Takes.peek takes_remaining fun lexemes spells => ?_
    refine ((retells_members idents formed.members clear keyed line _
      (length_lt_of_spells starts spells)).weaken fun good => good.members).last
      fun found retells => takes_pure ⟨rfl, ?_, ?_⟩
    · intro good
      have sameMembers := retells.equal good.members
      simp only [ClassDecl.unplaced, sameMembers]
    · intro same
      simp only [ClassDecl.same, Bool.and_eq_true] at same
      exact ⟨inOrder, retells.only same.2⟩
  · refine (misreads_supertypes idents formed.superclass formed.interfaces formed.noSuperclass
      inOrder ?_ ?_).weaken fun good => inOrder good.interfaces
    · rintro ⟨_, _⟩ words noBrace
      exact (fails_expectKind noBrace).bind
    · intro found other
      refine (takes_expect rfl).bind_word fun _ _ => ?_
      refine Takes.peek takes_remaining fun lexemes spells => ?_
      refine ((retells_members idents formed.members clear keyed line _
        (length_lt_of_spells starts spells)).weaken False.elim).last
        fun found retells => takes_pure ⟨rfl, fun good => absurd good.interfaces inOrder, ?_⟩
      intro same
      simp only [ClassDecl.same, Bool.and_eq_true, other] at same
      exact absurd same.1.2 Bool.false_ne_true

/-! ## Packages -/

theorem Starts.append {words : List Word} (starts : Starts words) (later : List Word) :
    Starts (words ++ later) := by
  obtain ⟨word, more, rfl, other⟩ := starts
  exact ⟨word, more ++ later, rfl, other⟩

theorem starts_classWords (mode : NullMode) {cls : ClassDecl} (formed : cls.modifiers.Formed) :
    Starts (classWords mode cls) := by
  have kind : Starts (kindWords cls.kind) := by
    cases cls.kind <;> exact ⟨_, _, rfl, by decide⟩
  unfold classWords preambleWords
  cases texts : cls.modifiers.annotations with
  | cons text texts' =>
      obtain ⟨sign, first, more, shape, signKind, _⟩ := (formed text (by simp [texts])).shape
      rw [List.flatMap_cons, shape]
      refine ⟨sign, _, rfl, ?_⟩
      rw [signKind]
      decide
  | nil =>
      cases words : cls.modifiers.words with
      | cons word words => exact ⟨_, _, rfl, TokenKind.noConfusion⟩
      | nil => exact kind.append _

theorem retells_classes (idents : Identifiers allowed) {package : Package}
    (formed : package.Formed allowed) (keyed : package.Keyed)
    (clear : ∀ cls ∈ package.classes.values, ∀ member ∈ cls.item.members.values, member.item.Clear)
    (line : Nat) {rounds : Nat} (enough : package.classes.values.length < rounds) :
    Takes mode (package.Rereadable mode) (packageBody line package.name rounds .empty)
      ((package.classes.values.flatMap fun told => classWords mode told.item) ++ [.rightBrace]) back
      fun found => Retells (package.Rereadable mode)
        (fun map : OrderedMap String (Located ClassDecl) =>
          map.mapValues (Located.plain ClassDecl.unplaced))
        (fun map other => map.sameEntries (fun found told => found.item.same told.item) other)
        found package.classes := by
  have named : ∀ entry ∈ package.classes.entries, entry.1 = entry.2.item.name :=
    fun entry stored => (keyed entry stored).1
  have inner : ∀ told ∈ package.classes.values, told.item.Keyed := by
    intro told stored
    obtain ⟨name, entry⟩ := (package.classes.mem_values_iff told).mp stored
    exact (keyed _ entry).2
  have distinct : ((OrderedMap.empty : OrderedMap String (Located ClassDecl)).keys ++
      package.classes.values.map fun told => told.item.name).Nodup :=
    package.classes.nodup_map_values _ named
  refine (takes_block ClassDecl.name ClassDecl.name
    (Retold ClassDecl.name (ClassDecl.Rereadable mode) ClassDecl.unplaced ClassDecl.same)
    (blockLoop_packageBody line package.name) (fun _ _ retold => retold.1) ?_
    (fun told stored => starts_classWords mode (formed.classes told stored).modifiers)
    .empty distinct enough).mono ?_
  · intro told stored back
    exact (retells_class idents (formed.classes told stored) (inner told stored) (clear told stored)
      (formed.qualified told stored)).weaken fun allGood => allGood told stored
  · rintro result ⟨founds, retold, entries⟩
    exact retells_map named entries retold

theorem retells_package (idents : Identifiers allowed) {told : Located Package}
    (formed : told.item.Formed allowed) (keyed : told.item.Keyed)
    (clear : ∀ cls ∈ told.item.classes.values, ∀ member ∈ cls.item.members.values,
      member.item.Clear)
    {packages : OrderedMap String (Located Package)}
    (isNew : packages.contains told.item.name = false) :
    Takes mode (told.item.Rereadable mode) (packageBlock packages) (packageWords mode told.item)
      back fun result => ∃ found, Retold Package.name (Package.Rereadable mode) Package.unplaced
        Package.same found told ∧ result = packages.insert found.item.name found := by
  have absent : packages.get? told.item.name = none := by
    rw [OrderedMap.contains, Option.isSome_eq_false_iff, Option.isNone_iff_eq_none] at isNew
    exact isNew
  have starts : ∀ cls ∈ told.item.classes.values, Starts (classWords mode cls.item) :=
    fun cls stored => starts_classWords mode (formed.classes cls stored).modifiers
  refine Takes.peek takes_currentLine fun line _ => ?_
  refine (takes_skipWord "package").bind_word fun found taken => ?_
  subst taken
  refine (takes_qualifiedName _ told.item.name ?_).bind fun found same => ?_
  · exact notNext_of_ne TokenKind.noConfusion
  subst same
  refine (takes_expect rfl).bind_word fun _ _ => ?_
  refine Takes.peek takes_remaining fun lexemes spells => ?_
  simp only [absent, Option.getD_none]
  refine (retells_classes idents formed keyed clear line (length_lt_of_spells starts spells)).last
    fun classes retells => takes_pure ?_
  refine ⟨{ line, item := { name := told.item.name, classes } }, ⟨rfl, ?_, ?_⟩, rfl⟩
  · intro good
    have sameClasses := retells.equal good
    simp only [Package.unplaced]
    exact congrArg (Package.mk told.item.name) sameClasses
  · intro same
    simp only [Package.same, Bool.and_eq_true] at same
    exact retells.only same.2

theorem takes_noPackages (rounds : Nat) (packages : OrderedMap String (Located Package)) :
    Takes mode good (packageBlocks rounds packages) [] [] fun result => result = packages := by
  cases rounds with
  | zero => exact takes_pure rfl
  | succ rounds =>
      refine Takes.peek takes_remaining fun lexemes spells => ?_
      cases spells
      exact takes_pure rfl

/-- A round reads one block, and the later rounds read what stands behind it. -/
theorem takes_packageBlocks {packages : OrderedMap String (Located Package)} {rounds : Nat}
    {first : Word} {front later : List Word}
    {middle post : OrderedMap String (Located Package) → Prop}
    (block : Takes mode good (packageBlock packages) (first :: front) (later ++ back) middle)
    (behind : ∀ grown, middle grown →
      Takes mode good (packageBlocks rounds grown) later back post) :
    Takes mode good (packageBlocks (rounds + 1) packages) (first :: front ++ later) back post := by
  refine Takes.peek takes_remaining fun lexemes spells => ?_
  have notEmpty : lexemes.isEmpty = false := by
    cases spells
    rfl
  simp only [notEmpty, Bool.false_eq_true, if_false]
  exact block.bind behind

/-- The lexemes of written packages are read as packages that retell them. -/
theorem retells_packages (idents : Identifiers allowed) {tolds : List (Located Package)}
    (formed : ∀ told ∈ tolds, told.item.Formed allowed) (keyed : ∀ told ∈ tolds, told.item.Keyed)
    (clear : ∀ told ∈ tolds, ∀ cls ∈ told.item.classes.values,
      ∀ member ∈ cls.item.members.values, member.item.Clear)
    (packages : OrderedMap String (Located Package))
    (distinct : (packages.keys ++ tolds.map fun told => told.item.name).Nodup) {rounds : Nat}
    (enough : tolds.length ≤ rounds) :
    Takes mode (∀ told ∈ tolds, told.item.Rereadable mode) (packageBlocks rounds packages)
      (tolds.flatMap fun told => packageWords mode told.item) [] fun result =>
        ∃ founds, List.Forall₂ (Retold Package.name (Package.Rereadable mode) Package.unplaced
          Package.same) founds tolds ∧
          result.entries = packages.entries ++ founds.map fun found => (found.item.name, found) := by
  induction tolds generalizing rounds packages with
  | nil =>
      refine (takes_noPackages rounds packages).mono ?_
      rintro result rfl
      exact ⟨[], .nil, by simp⟩
  | cons told tolds ih =>
      cases rounds with
      | zero => simp at enough
      | succ rounds =>
          rw [List.flatMap_cons]
          have isNew : packages.contains told.item.name = false :=
            OrderedMap.contains_of_distinct distinct
          refine takes_packageBlocks ((retells_package idents (formed told List.mem_cons_self)
            (keyed told List.mem_cons_self) (clear told List.mem_cons_self) isNew).weaken
            fun allGood => allGood told List.mem_cons_self) fun inserted outcome => ?_
          obtain ⟨found, retold, rfl⟩ := outcome
          have sameName : found.item.name = told.item.name := retold.1
          rw [List.map_cons, ← sameName] at distinct
          rw [← sameName] at isNew
          have inserted := packages.entries_insert isNew found
          refine ((ih (fun next member => formed next (List.mem_cons_of_mem _ member))
            (fun next member => keyed next (List.mem_cons_of_mem _ member))
            (fun next member => clear next (List.mem_cons_of_mem _ member)) _
            (OrderedMap.distinct_insert distinct found) (Nat.le_of_succ_le_succ enough)).weaken
            fun allGood next member => allGood next (List.mem_cons_of_mem _ member)).mono ?_
          rintro result ⟨founds, later, entries⟩
          refine ⟨found :: founds, .cons retold later, ?_⟩
          rw [entries, inserted]
          simp

end ApiCompat.Signature
