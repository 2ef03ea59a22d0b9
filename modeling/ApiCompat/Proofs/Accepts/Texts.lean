import ApiCompat.Proofs.Accepts.Classes
import ApiCompat.Signature.Read

/-!
# Texts of the documented grammar are read

A package block adds the classes of its tree to what was read before it.  So a
text that the documented grammar derives is read, and declares the classes of its
trees with their supertypes (`read_documented`), where the reader finds its way
in it.  It does not find its way in every text: `not_read_documented`.
-/

set_option autoImplicit false

namespace ApiCompat

/-- Classes of new names can be declared. -/
theorem foldlM_declareClass_ok {founds : List (Located ClassDecl)}
    {classes : OrderedMap String (Located ClassDecl)}
    (distinct : (classes.keys ++ founds.map fun found => found.item.name).Nodup) :
    ∃ result, founds.foldlM declareClass classes = .ok result ∧
      result.entries = classes.entries ++ founds.map fun found => (found.item.name, found) := by
  induction founds generalizing classes with
  | nil => exact ⟨classes, rfl, by simp⟩
  | cons found founds ih =>
      have isNew := OrderedMap.contains_of_distinct distinct
      obtain ⟨result, declared, entries⟩ := ih (OrderedMap.distinct_insert distinct found)
      have first : declareClass classes found = .ok (classes.insert found.item.name found) := by
        simp [declareClass, addFound, isNew]
      refine ⟨result, ?_, ?_⟩
      · rw [List.foldlM_cons, first]
        exact declared
      · rw [entries, classes.entries_insert isNew found]
        simp

namespace Grammar

structure PackageTree.DeclaredAs (mode : NullMode) (told : PackageTree) (block : Block) :
    Prop where
  name : block.name = told.name.text
  classes : List.Forall₂ (fun found told => told.item.DeclaredAs mode found.item)
    block.classes told.classes

variable {mode : NullMode}

open Signature in
theorem names_declared {blocks : List Block} {tolds : List (Located PackageTree)}
    (declaredAs : List.Forall₂ (fun block told => told.item.DeclaredAs mode block) blocks tolds) :
    (declaredIn blocks).map (fun entry => (entry.1, entry.2.item.name)) = declaredNames tolds := by
  induction declaredAs with
  | nil => rfl
  | @cons block told blocks tolds first _ ih =>
      have own : block.declared.map (fun entry => (entry.1, entry.2.item.name)) =
          told.item.classes.map fun cls => (told.item.name.text, cls.item.name.text) := by
        rw [Block.declared, List.map_map]
        exact map_eq_of_forall₂ (fun _ _ declared => by simp [first.name, declared.name])
          first.classes
      have cut : declaredIn (block :: blocks) = block.declared ++ declaredIn blocks :=
        List.flatMap_cons
      rw [cut, List.map_append, own, ih]
      rfl

/-- Declaring blocks adds the classes of their trees, and no others. -/
theorem isSome_classAt?_declared {packages result : OrderedMap String (Located Package)}
    {blocks : List Block} {tolds : List (Located PackageTree)}
    (declaredAs : List.Forall₂ (fun block told => told.item.DeclaredAs mode block) blocks tolds)
    (declared : blocks.foldlM declareBlock packages = .ok result) (package name : String) :
    (classAt? result package name).isSome ↔
      (classAt? packages package name).isSome ∨ (package, name) ∈ declaredNames tolds := by
  have lookup := classAt?_foldlM_declareBlock declared package name
  rw [← names_declared declaredAs, List.mem_map]
  simp only [Option.isSome_iff_exists, lookup, exists_or, Prod.exists, Prod.mk.injEq]
  grind

/-- A class of the trees is found under its name, with its members. -/
theorem classAt?_declared {packages result : OrderedMap String (Located Package)}
    {blocks : List Block} {tolds : List (Located PackageTree)}
    (declaredAs : List.Forall₂ (fun block told => told.item.DeclaredAs mode block) blocks tolds)
    (declared : blocks.foldlM declareBlock packages = .ok result) :
    ∀ told ∈ tolds, ∀ cls ∈ told.item.classes, ∃ found,
      classAt? result told.item.name.text cls.item.name.text = some found ∧
        cls.item.DeclaredAs mode found.item := by
  intro told member cls inner
  obtain ⟨block, stored, asBlock⟩ := partner_of_forall₂ declaredAs told member
  obtain ⟨found, within, asClass⟩ := partner_of_forall₂ asBlock.classes cls inner
  refine ⟨found, ?_, asClass⟩
  refine (classAt?_foldlM_declareBlock declared _ _ _).mpr (.inr ⟨?_, asClass.name⟩)
  exact List.mem_flatMap.mpr ⟨block, stored, List.mem_map.mpr ⟨found, within, by rw [asBlock.name]⟩⟩

end Grammar

namespace Signature

open Reader Grammar

variable {mode : NullMode} {good : Prop} {back : List Word}

/-! ## Packages -/

/-- The words of a package declare a block of its name with its classes. -/
theorem takes_packageTree {package : PackageTree}
    (documented : ∀ told ∈ package.classes, told.item.Documented)
    (clear : ∀ told ∈ package.classes, told.item.Clear)
    {packages : OrderedMap String (Located Package)}
    (isNew : ∀ told ∈ package.classes,
      classAt? packages package.name.text told.item.name.text = none)
    (distinct : (package.classes.map fun told => told.item.name.text).Nodup) :
    Takes mode good (packageBlock packages) package.words back fun result =>
      ∃ block, package.DeclaredAs mode block ∧ declareBlock packages block = .ok result := by
  have starts : ∀ told ∈ package.classes, Starts told.item.words :=
    fun told _ => starts_classTree told.item
  refine Takes.peek takes_currentLine fun line _ => ?_
  refine (takes_skipWord "package").bind_word fun found taken => ?_
  subst taken
  refine (takes_name _ package.name (notNext_of_ne TokenKind.noConfusion)).bind fun found named => ?_
  subst named
  refine (takes_expect rfl).bind_word fun _ _ => ?_
  refine Takes.peek takes_remaining fun lexemes spells => ?_
  let opened := openedPackage packages line package.name.text
  have disjoint : (opened.item.classes.keys ++
      package.classes.map fun told => told.item.name.text).Nodup := by
    refine List.nodup_append.mpr ⟨opened.item.classes.distinct, distinct, ?_⟩
    rintro key stored _ listed rfl
    obtain ⟨told, member, rfl⟩ := List.mem_map.mp listed
    have absent := isNew told member
    rw [← get?_classesAt, ← classesAt_openedPackage packages line,
      OrderedMap.get?_eq_none_iff] at absent
    exact absent stored
  refine (takes_classTrees documented clear opened.item.classes disjoint
    (length_lt_of_spells starts spells)).last fun classes outcome => takes_pure ?_
  obtain ⟨founds, declared, entries⟩ := outcome
  have names : (founds.map fun found => found.item.name) =
      package.classes.map fun told => told.item.name.text :=
    map_eq_of_forall₂ (fun _ _ declared => declared.name) declared
  obtain ⟨result, folded, stored⟩ := foldlM_declareClass_ok (names ▸ disjoint)
  obtain rfl : result = classes := OrderedMap.ext_entries (stored.trans entries.symm)
  refine ⟨⟨line, package.name.text, founds⟩, ⟨rfl, declared⟩, ?_⟩
  rw [declareBlock, folded]
  rfl

theorem takes_packageTrees {tolds : List (Located PackageTree)} (documented : Documented tolds)
    (clear : Clear tolds) {packages : OrderedMap String (Located Package)}
    (isNew : ∀ names ∈ declaredNames tolds, classAt? packages names.1 names.2 = none)
    {rounds : Nat} (enough : tolds.length ≤ rounds) :
    Takes mode good (packageBlocks rounds packages) (fileWords tolds) [] fun result =>
      ∃ blocks, List.Forall₂ (fun block told => told.item.DeclaredAs mode block) blocks tolds ∧
        blocks.foldlM declareBlock packages = .ok result := by
  induction tolds generalizing rounds packages with
  | nil =>
      refine (takes_noPackages rounds packages).mono ?_
      rintro result rfl
      exact ⟨[], .nil, rfl⟩
  | cons told tolds ih =>
      cases rounds with
      | zero => simp at enough
      | succ rounds =>
          obtain ⟨own, later, apart⟩ := List.nodup_append.mp documented.distinct
          have documentedLater : Documented tolds := {
            names := fun block member => documented.names block (List.mem_cons_of_mem _ member)
            classes := fun block member => documented.classes block (List.mem_cons_of_mem _ member)
            distinct := later }
          have ownDistinct : (told.item.classes.map fun cls => cls.item.name.text).Nodup := by
            refine List.Nodup.of_map (fun name => (told.item.name.text, name)) ?_
            rw [List.map_map]
            exact own
          have ownNew : ∀ cls ∈ told.item.classes,
              classAt? packages told.item.name.text cls.item.name.text = none := fun cls member =>
            isNew _ (List.mem_append_left _ (List.mem_map.mpr ⟨cls, member, rfl⟩))
          refine takes_packageBlocks (takes_packageTree (documented.classes told List.mem_cons_self)
            (clear told List.mem_cons_self) ownNew ownDistinct) fun grown outcome => ?_
          obtain ⟨block, declaredAs, declared⟩ := outcome
          have first : [block].foldlM declareBlock packages = .ok grown := by
            rw [List.foldlM_cons, declared]
            rfl
          have laterNew : ∀ names ∈ declaredNames tolds, classAt? grown names.1 names.2 = none := by
            intro names listed
            have old := isNew names (List.mem_append_right _ listed)
            have added := isSome_classAt?_declared (.cons declaredAs .nil) first names.1 names.2
            rw [old, declaredNames, List.flatMap_singleton] at added
            rw [← Option.not_isSome_iff_eq_none, added]
            rintro (absurd | inOwn)
            · cases absurd
            · exact apart _ inOwn _ listed rfl
          refine (ih documentedLater (fun block member => clear block (List.mem_cons_of_mem _ member))
            laterNew (Nat.le_of_succ_le_succ enough)).mono ?_
          rintro result ⟨blocks, laterAs, rest⟩
          refine ⟨block :: blocks, .cons declaredAs laterAs, ?_⟩
          rw [List.foldlM_cons, declared]
          exact rest

/-! ## Texts -/

theorem resolveMode_supported {text : List Char}
    (supported : ∀ header ∈ header? text, (NullMode.ofVersion? header.2).isSome) :
    ∃ mode, resolveMode text none = .ok mode := by
  unfold resolveMode
  cases header : header? text with
  | none => exact ⟨_, rfl⟩
  | some found =>
      obtain ⟨mode, known⟩ := Option.isSome_iff_exists.mp (supported found header)
      exact ⟨mode, by simp only [known]⟩

/-- A text of the documented grammar is read without a null mode where the reader
finds its way, and it declares the classes of its trees. -/
theorem read_documented (source text : String) {blocks : List (Located PackageTree)}
    (derives : Derives text blocks)
    (supported : ∀ header ∈ header? text.toList, (NullMode.ofVersion? header.2).isSome)
    (documented : Documented blocks) (clear : Clear blocks) :
    ∃ api, read source text none = .ok api ∧
      (∀ package name, (classAt? api.packages package name).isSome ↔
        (package, name) ∈ declaredNames blocks) ∧
      ∀ block ∈ blocks, ∀ cls ∈ block.item.classes, ∃ found,
        classAt? api.packages block.item.name.text cls.item.name.text = some found ∧
          cls.item.DeclaredAs api.nullMode found.item := by
  obtain ⟨lexemes, tokenized, spells⟩ := derives
  obtain ⟨mode, resolved⟩ := resolveMode_supported supported
  have enough : blocks.length ≤ lexemes.length := by
    rw [← spells.length_eq]
    have starts : ∀ block ∈ blocks, Starts block.item.words :=
      fun _ _ => ⟨_, _, rfl, TokenKind.noConfusion⟩
    exact length_le_of_starts starts
  have takes : Takes mode True (packageBlocks lexemes.length .empty) (fileWords blocks) [] _ :=
    takes_packageTrees documented clear (fun _ _ => rfl) enough
  let context : Context := { nullMode := mode, endLine := lastLine lexemes }
  obtain ⟨packages, outcome, declared, declaredAs, folded⟩ :=
    takes.run (show context.nullMode = mode from rfl) spells .nil
  rw [List.append_nil] at outcome
  refine ⟨{ source, nullMode := mode, packages }, ?_, ?_, ?_⟩
  · simp only [read, resolved, tokenized, readPackages]
    rw [outcome]
  · intro package name
    rw [isSome_classAt?_declared declaredAs folded]
    simp [classAt?, OrderedMap.get?, OrderedMap.empty]
  · intro block member cls inner
    exact classAt?_declared declaredAs folded block member cls inner

def nameTree (first : String) (later : List String := []) : TypeTree :=
  .named [] { first, later } [] none {}

/-- Two blocks of one package, with bounds, marks and brackets. -/
def grammarSample : String :=
  "// Signature format: 3.0\npackage p.q \x7b\n" ++
  "  @Since(2) public class C<K extends A & B<?>> extends internal.Base implements X Y, Z \x7b\n" ++
  "    ctor public C(int, @Nullable String... names) throws E;\n" ++
  "    method public <T> Map<K, ? extends T>[] find(T! value);\n" ++
  "    field static int MAX = 1 + 2; // a constant\n  \x7d\n\x7d\n" ++
  "package p.q \x7b\n  enum Kind \x7b\n    enum_constant p.q.Kind ONE;\n  \x7d\n\x7d\n"

def sampleConstructor : ConstructorTree where
  front := [.modifier ⟨"public", .scope .publicScope, by decide +kernel⟩]
  name := { first := "C" }
  parameters := [{ type := nameTree "int" },
    { type := .named [⟨{ first := "Nullable" }, [], .inl rfl⟩] { first := "String" } [] none
        { varargs := true },
      name := some "names" }]
  throws := [nameTree "E"]

def sampleMethod : MethodTree where
  front := [.modifier ⟨"public", .scope .publicScope, by decide +kernel⟩]
  typeParams := [{ name := "T" }]
  returnType := .named [] { first := "Map" }
    [nameTree "K", .wildcard [] (.upper (nameTree "T")) {}] none { dims := 1 }
  name := "find"
  parameters := [
    { type := .named [] { first := "T" } [] none { mark := some .bang }, name := some "value" }]

def sampleField : FieldTree where
  front := [.modifier ⟨"static", .flag .staticFlag, by decide +kernel⟩]
  type := nameTree "int"
  name := "MAX"
  value := some ⟨[⟨.number, "1", none⟩, ⟨.operator, "+", none⟩, ⟨.number, "2", none⟩], "1 + 2",
    by simp, by decide⟩

def sampleClass : ClassTree where
  front := [.annotated ⟨{ first := "Since" }, [.leftParen, ⟨.number, "2", none⟩, .rightParen],
      .inr ⟨by decide, by decide⟩⟩ "@Since(2)", .modifier ⟨"public", .scope .publicScope, by decide +kernel⟩]
  kind := .classKind
  name := { first := "C" }
  typeParams := [
    { name := "K",
      bounds := [nameTree "A", .named [] { first := "B" } [.wildcard [] .unbounded {}] none {}] }]
  supertypes :=
    { extension := some (.superclass (nameTree "internal" ["Base"])),
      implemented := some { first := nameTree "X", later := [⟨false, nameTree "Y"⟩,
        ⟨true, nameTree "Z"⟩] } }
  members := [⟨4, .constructor sampleConstructor⟩, ⟨5, .method sampleMethod⟩,
    ⟨6, .field sampleField⟩]

def sampleEnum : ClassTree where
  kind := .enumKind
  name := { first := "Kind" }
  members := [
    ⟨11, .field { type := nameTree "p" ["q", "Kind"], name := "ONE", isEnumConstant := true }⟩]

def sampleBlocks : List (Located PackageTree) :=
  [⟨2, { name := { first := "p", later := ["q"] }, classes := [⟨3, sampleClass⟩] }⟩,
    ⟨9, { name := { first := "p", later := ["q"] }, classes := [⟨10, sampleEnum⟩] }⟩]

theorem read_documented_sample :
    Derives grammarSample sampleBlocks ∧
      (∀ header ∈ header? grammarSample.toList, (NullMode.ofVersion? header.2).isSome) ∧
      Documented sampleBlocks ∧ Clear sampleBlocks ∧
      ∃ api, read "api.txt" grammarSample none = .ok api ∧
        (classAt? api.packages "p.q" "C").isSome ∧ (classAt? api.packages "p.q" "Kind").isSome := by
  have derives : Derives grammarSample sampleBlocks := by decide +kernel
  have supported : ∀ header ∈ header? grammarSample.toList,
      (NullMode.ofVersion? header.2).isSome := by decide +kernel
  have documented : Documented sampleBlocks := by decide +kernel
  have clear : Clear sampleBlocks := by decide +kernel
  obtain ⟨api, whole, names, _⟩ := read_documented "api.txt" grammarSample derives supported
    documented clear
  exact ⟨derives, supported, documented, clear, api, whole, (names _ _).mpr (by decide +kernel),
    (names _ _).mpr (by decide +kernel)⟩

def fieldText (type : String) : String :=
  "package p \x7b\n  class C \x7b\n    field " ++ type ++ " x;\n  \x7d\n\x7d\n"

def fieldBlocks (type : TypeTree) : List (Located PackageTree) :=
  [⟨1, { name := { first := "p" },
         classes := [⟨2, { kind := .classKind, name := { first := "C" },
                           members := [⟨3, .field { type, name := "x" }⟩] }⟩] }⟩]

def headText (front supertypes : String) : String :=
  "package p \x7b\n  " ++ front ++ "class C" ++ supertypes ++ " \x7b\n  \x7d\n\x7d\n"

def headBlocks (front : List FrontTree) (supertypes : SupertypesTree := {}) :
    List (Located PackageTree) :=
  [⟨1, { name := { first := "p" },
         classes := [⟨2, { front, kind := .classKind, name := { first := "C" }, supertypes }⟩] }⟩]

def implementing (first : TypeTree) (later : List ListedType) : SupertypesTree where
  implemented := some { first, later }

/-- A text of the documented grammar is refused. -/
def Refused (text : String) (blocks : List (Located PackageTree)) : Prop :=
  Derives text blocks ∧ header? text.toList = none ∧ Documented blocks ∧
    (read "api.txt" text none).isOk = false

instance (text : String) (blocks : List (Located PackageTree)) : Decidable (Refused text blocks) :=
  inferInstanceAs (Decidable (_ ∧ _ ∧ _ ∧ _))

/-- The reader takes the first part of a name for a modifier, and it expects nothing behind a
wildcard.  Words of the grammar are taken for such also in front of a dot.  Annotations of nullness
may not contradict each other in front of a class, where they mark no type, and a wildcard behind a
name is taken for its mark. -/
theorem not_read_documented :
    Refused (fieldText "internal.Foo") (fieldBlocks (nameTree "internal" ["Foo"])) ∧
    Refused (fieldText "List<?[]>") (fieldBlocks (.named [] { first := "List" }
        [.wildcard [] .unbounded { dims := 1 }] none {})) ∧
    Refused (headText "@interface.A " "")
      (headBlocks [.annotated ⟨{ first := "interface", later := ["A"] }, [], .inl rfl⟩ ""]) ∧
    Refused (headText "" " implements A, implements.B")
      (headBlocks [] (implementing (nameTree "A") [⟨true, nameTree "implements" ["B"]⟩])) ∧
    Refused (headText "@Nullable @NonNull " "")
      (headBlocks [.annotated ⟨{ first := "Nullable" }, [], .inl rfl⟩ "",
        .annotated ⟨{ first := "NonNull" }, [], .inl rfl⟩ ""]) ∧
    Refused (headText "" " implements @NonNull A ?")
      (headBlocks [] (implementing
        (.named [⟨{ first := "NonNull" }, [], .inl rfl⟩] { first := "A" } [] none {})
        [⟨false, .wildcard [] .unbounded {}⟩])) := by
  decide +kernel

end Signature

end ApiCompat
