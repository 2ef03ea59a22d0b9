import ApiCompat.Proofs.Signature.RoundTrip

/-!
# Reading undoes writing

A description whose names avoid the words with a meaning of their own in a
signature text is read back from its canonical text, wherever it came from.
-/

set_option autoImplicit false

namespace ApiCompat

open Signature

/-- The words that mean something to the readers of declarations. -/
def reservedWords : List String :=
  ["public", "protected", "private", "internal", "deprecated", "sealed", "static", "final",
    "abstract", "default", "synchronized", "native", "transient", "volatile", "strictfp", "class",
    "interface", "enum", "package", "extends", "implements", "super", "throws"]

/-- An identifier without a meaning of its own. -/
def PlainWord (word : String) : Prop := isIdentifier word = true ∧ word ∉ reservedWords

instance : DecidablePred PlainWord := fun _ => inferInstanceAs (Decidable (_ ∧ _))

/-- Everything is stored under its name, names consist of plain words, wildcards
have only a bound, and annotations and values are captured whole. -/
def Api.WellFormed (api : Api) : Prop := api.Formed PlainWord

theorem identifiers_plainWord : Identifiers PlainWord := fun _ plain => plain.1

theorem reserved_of_modifier {word : String} (known : ModifierWord.ofWord? word ≠ none) :
    word ∈ reservedWords := by
  unfold ModifierWord.ofWord? at known
  split at known <;> first | decide | exact absurd rfl known

theorem PlainWord.notModifier {word : String} (plain : PlainWord word) :
    ModifierWord.ofWord? word = none := by
  by_contra known
  exact plain.2 (reserved_of_modifier known)

theorem PlainWord.ne_of_reserved {word other : String} (plain : PlainWord word)
    (reserved : other ∈ reservedWords) : word ≠ other := by
  rintro rfl
  exact plain.2 reserved

theorem DottedName.first {allowed : String → Prop} {name : String}
    (dotted : DottedName allowed name) : allowed (firstPart name) := by
  obtain ⟨later, shape⟩ := nameParts_shape name
  exact dotted _ (by simp [shape])

theorem TypeRef.Formed.first {type : TypeRef} (formed : type.Formed PlainWord) :
    firstPart type.name = "?" ∨ PlainWord (firstPart type.name) := by
  rcases formed.parts.1 with wildcard | dotted
  · rw [wildcard]
    exact .inl (by decide)
  · exact .inr dotted.first

theorem TypeRef.Formed.plain {type : TypeRef} (formed : type.Formed PlainWord) (mode : NullMode) :
    type.beginsWithModifier = false ∧ type.beginsWithImplements mode = false := by
  unfold beginsWithModifier beginsWithImplements
  rcases formed.first with wildcard | plain
  · rw [wildcard]
    exact ⟨by decide, by simp⟩
  · have notImplements : firstPart type.name ≠ "implements" := plain.ne_of_reserved (by decide)
    simp [plain.notModifier, notImplements]

theorem clearName_plainWord {name : String} (plain : PlainWord name) (type : TypeRef) :
    ClearName type name :=
  fun _ => ⟨plain.ne_of_reserved (by decide), plain.ne_of_reserved (by decide)⟩

theorem Parameter.Formed.clear {parameter : Parameter} (formed : parameter.Formed PlainWord) :
    parameter.Clear :=
  fun name member => clearName_plainWord (formed.name name member) _

theorem Member.Formed.clear {member : Member} (formed : member.Formed PlainWord) :
    member.Clear := by
  cases member with
  | constructor item =>
      exact ⟨fun _ => formed.name.first.notModifier,
        fun parameter stored => (formed.parameters parameter stored).clear⟩
  | method item =>
      exact ⟨clearName_plainWord formed.name _,
        fun parameter stored => (formed.parameters parameter stored).clear⟩
  | field item => exact clearName_plainWord formed.name _

theorem Member.Formed.rereadable {member : Member} (formed : member.Formed PlainWord) :
    member.Rereadable := by
  cases member with
  | constructor item => trivial
  | method item => exact fun _ => (formed.returnType.plain .legacy).1
  | field item => exact (formed.type.plain .legacy).1

theorem ClassDecl.Formed.rereadable {cls : ClassDecl} (formed : cls.Formed PlainWord)
    (mode : NullMode) : cls.Rereadable mode where
  interfaces type later := ((formed.interfaces type (List.mem_of_mem_tail later)).plain mode).2
  members member stored := (formed.members member stored).rereadable

theorem Api.WellFormed.clear {api : Api} (wellFormed : api.WellFormed) : api.Clear :=
  fun package stored cls inPackage member inClass =>
    (((wellFormed.packages package stored).classes cls inPackage).members member inClass).clear

theorem Api.WellFormed.rereadable {api : Api} (wellFormed : api.WellFormed) : api.Rereadable :=
  fun package stored cls inPackage =>
    ((wellFormed.packages package stored).classes cls inPackage).rereadable api.nullMode

namespace Signature

/-- Reading undoes writing: what is written of a well-formed description is read,
under its null mode asked for or not, as the same description in the same order,
and that is written alike. -/
theorem read_write {api : Api} (wellFormed : api.WellFormed) (source : String)
    (requested : Option NullMode) (agrees : ∀ mode ∈ requested, mode = api.nullMode) :
    ∃ again, read source (write api) requested = .ok again ∧ again.same api = true ∧
      again.unplaced = api.unplaced ∧ write again = write api := by
  obtain ⟨again, whole, equal⟩ := (retells_write identifiers_plainWord wellFormed wellFormed.clear
    source agrees).1 wellFormed.rereadable
  exact ⟨again, whole, Api.same_of_unplaced equal, equal, write_of_unplaced equal⟩

def plainField : Field where
  name := "x"
  modifiers := { visibility := .publicScope, isFinal := true, annotations := ["@Size(3)"] }
  type := {
    name := "a.List"
    args := [{ name := "?", bound := .upper { name := "A", nullness := .nullable } }]
    nullness := .nonNull }
  value := some "1 + 2"

theorem formed_plainField : plainField.Formed PlainWord where
  name := by decide
  modifiers text member := by
    obtain rfl := List.mem_singleton.mp member
    exact ⟨[⟨.atSign, "@", "", 0, 1⟩, ⟨.identifier, "Size", "", 1, 1⟩, ⟨.leftParen, "(", "", 5, 1⟩,
      ⟨.number, "3", "", 6, 1⟩, ⟨.rightParen, ")", "", 7, 1⟩], "Size", by decide +kernel,
      fun _ => rfl, by decide, by decide⟩
  type := .inr ⟨by decide, rfl,
    .inl ⟨rfl, rfl, rfl, rfl, rfl, .inr ⟨by decide, rfl, trivial⟩⟩, trivial⟩
  value text member := by
    obtain rfl := Option.some.inj member
    exact ⟨[⟨.number, "1", "", 0, 1⟩, ⟨.operator, "+", " ", 2, 1⟩, ⟨.number, "2", " ", 4, 1⟩,
      ⟨.semicolon, ";", "", 5, 1⟩], _, by decide +kernel, fun _ => rfl⟩

/-- An interface in a package, as it might come from anywhere. -/
def plainSample : Api where
  source := "api.json"
  nullMode := .nullAware
  packages := ⟨[("p.q", {
    line := 1
    item := {
      name := "p.q"
      classes := ⟨[("I", {
        line := 2
        item := {
          name := "I"
          qualifiedName := "p.q.I"
          kind := .interfaceKind
          interfaces := ⟨[{ name := "J", nullness := .nonNull }, { name := "K" }], by decide⟩
          members := ⟨[(.field "x", { line := 3, item := .field plainField })], by decide⟩ } })],
        by decide⟩ } })], by decide⟩

theorem wellFormed_plainSample : plainSample.WellFormed := by
  refine ⟨by decide, fun package stored => ?_⟩
  obtain rfl := List.mem_singleton.mp stored
  refine ⟨by decide, fun cls inPackage => ?_, fun cls inPackage => ?_⟩
  · obtain rfl := List.mem_singleton.mp inPackage
    decide
  · obtain rfl := List.mem_singleton.mp inPackage
    refine ⟨by decide, List.forall_mem_nil _, List.forall_mem_nil _, by simp, ?_, fun _ => rfl, ?_⟩
    · intro type listed
      rcases List.mem_cons.mp listed with rfl | later
      · exact .inr ⟨by decide, rfl, trivial⟩
      · obtain rfl := List.mem_singleton.mp later
        exact .inr ⟨by decide, rfl, trivial⟩
    · intro member inClass
      obtain rfl := List.mem_singleton.mp inClass
      exact formed_plainField

theorem read_write_plainSample :
    plainSample.WellFormed ∧ ∃ again,
      read "api.txt" (write plainSample) none = .ok again ∧ again.same plainSample = true ∧
        again.unplaced = plainSample.unplaced ∧ write again = write plainSample :=
  ⟨wellFormed_plainSample, read_write wellFormed_plainSample "api.txt" none (by simp)⟩

end Signature

end ApiCompat
