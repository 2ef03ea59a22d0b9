import ApiCompat.Proofs.Api.Outline
import ApiCompat.Proofs.Api.Stored
import ApiCompat.Proofs.Signature.ClassGives
import ApiCompat.Proofs.Signature.Derivation

/-!
# What is stored of a text

A description that was read from a text has an invariant (`Api.Invariant`) on
which lookups, comparing and writing rely, and it lists the declarations of the
text in their order, no more and no fewer (`Api.Lists`).
-/

set_option autoImplicit false

namespace ApiCompat

open Signature Grammar

/-- Everything is formed and stored under its own name, which nothing beside it has. -/
structure Api.Invariant (api : Api) : Prop extends api.Formed AnyIdentifier where
  qualified : ∀ package ∈ api.packages.values, ∀ cls ∈ package.item.classes.values,
    cls.item.qualifiedName = package.item.name ++ "." ++ cls.item.name
  classNames : ∀ package ∈ api.packages.values,
    (package.item.classes.values.map fun cls => cls.item.name).Nodup
  memberKeys : ∀ package ∈ api.packages.values, ∀ cls ∈ package.item.classes.values,
    (cls.item.members.values.map fun member => member.item.key).Nodup
  values : ∀ package ∈ api.packages.values, ∀ cls ∈ package.item.classes.values,
    ∀ member ∈ cls.item.members.values, ∀ text ∈ member.item.value?, text ≠ ""

/-- The packages, classes and members of the description are those of the trees, in order;
a package that is opened more than once stands where it was opened first. -/
structure Api.Lists (api : Api) (blocks : List (Located PackageTree)) : Prop where
  packages : api.packages.keys =
    (OrderedSet.ofList (blocks.map fun block => block.item.name.text)).toList
  classes : ∀ package ∈ api.packages.values, package.item.classes.values =
    (blocks.filter fun block => block.item.name.text == package.item.name).flatMap fun block =>
      block.item.classes.map (Located.move id (ClassTree.classIn api.nullMode package.item.name))
  members : ∀ block ∈ blocks, ∀ cls ∈ block.item.classes,
    (cls.item.classIn api.nullMode block.item.name.text).members.values =
      cls.item.members.map (Located.move id (MemberTree.memberIn api.nullMode))

/-! ## The invariant -/

theorem DottedName.ne_empty {name : String} (dotted : DottedName AnyIdentifier name) :
    name ≠ "" := by
  rintro rfl
  have empty : isIdentifier "" = true := dotted "" (by decide)
  exact absurd empty (by decide)

theorem qualify_eq {package : String} (filled : package ≠ "") (name : String) :
    qualify package name = package ++ "." ++ name := by
  rw [qualify, if_neg]
  simpa using filled

theorem Signature.CapturedValue.ne_empty {text : String} (captured : CapturedValue text) :
    text ≠ "" := by
  rintro rfl
  obtain ⟨lexemes, rest, found, read⟩ := captured
  obtain ⟨taken, semicolon, behind, rfl, filled, _, plain, _⟩ :=
    rawValue_eq_ok (read { nullMode := .legacy, endLine := 0 })
  have kinds : (tokenize ("" ++ ";")).toOption.map (List.map Lexeme.kind) = some [.semicolon] := by
    decide +kernel
  rw [found] at kinds
  obtain ⟨first, more, rfl⟩ := List.exists_cons_of_ne_nil filled
  have first_kind : first.kind = .semicolon := (List.cons.inj (Option.some.inj kinds)).1
  exact plain first List.mem_cons_self first_kind

theorem Member.Formed.value_ne_empty {member : Member} (formed : member.Formed AnyIdentifier) :
    ∀ text ∈ member.value?, text ≠ "" := by
  cases member with
  | constructor item => simp [Member.value?]
  | method item => exact fun text stored => (formed.defaultValue text stored).ne_empty
  | field item => exact fun text stored => (formed.value text stored).ne_empty

theorem Api.Formed.invariant {api : Api} (formed : api.Formed AnyIdentifier) : api.Invariant where
  toFormed := formed
  qualified package stored cls inner := by
    have inPackage := formed.packages package stored
    rw [inPackage.qualified cls inner, qualify_eq inPackage.name.ne_empty]
  classNames package stored := by
    have found := formed.keyed.get?_name stored
    exact (formed.keyed.name_of_get? found).2.names_nodup
  memberKeys package stored cls inner := by
    have keyed := (formed.keyed.name_of_get? (formed.keyed.get?_name stored)).2
    exact (keyed.name_of_get? (keyed.get?_name inner)).2.keys_nodup
  values package stored cls inner member inClass :=
    (((formed.packages package stored).classes cls inner).members member inClass).value_ne_empty

/-! ## The order -/

theorem classesOf_blockIn (mode : NullMode) (name : String) (blocks : List (Located PackageTree)) :
    classesOf name (blocks.map (blockIn mode)) =
      (blocks.filter fun block => block.item.name.text == name).flatMap fun block =>
        block.item.classes.map (Located.move id (ClassTree.classIn mode name)) := by
  rw [classesOf, List.filter_map, List.flatMap_map]
  refine List.flatMap_congr fun block member => ?_
  have same : (block.item.name.text == name) = true := (List.mem_filter.mp member).2
  rw [← eq_of_beq same]
  rfl

theorem values_membersIn (mode : NullMode) {members : List (Located MemberTree)}
    (distinct : (members.map fun found => found.item.key).Nodup) :
    (membersIn mode members).values = members.map (Located.move id (MemberTree.memberIn mode)) := by
  rw [OrderedMap.values, entries_membersIn mode distinct, List.map_map]
  rfl

namespace Signature

variable {source text : String} {requested : Option NullMode} {api : Api}

/-- Whatever is read from a text has the invariant, and lists what the text declares. -/
theorem read_stored (whole : read source text requested = .ok api) :
    api.Invariant ∧ ∃ blocks, Derives text blocks ∧ api.Lists blocks := by
  have formed := (formed_of_read whole).1
  obtain ⟨blocks, derives, declared, consistent⟩ := exists_tree_of_read whole
  refine ⟨formed.invariant, blocks, derives, ?_, ?_, ?_⟩
  · have keys := congrArg OrderedSet.toList (keySet_foldlM_declareBlock declared)
    rw [List.map_map] at keys
    exact keys
  · intro package stored
    have order := values_foldlM_declareBlock declared package.item.name
    rw [classesOf_blockIn] at order
    rw [classesAt, formed.keyed.get?_name stored] at order
    exact order
  · intro block member cls inner
    exact values_membersIn api.nullMode (consistent block member cls inner).distinct

/-- A package that is opened twice. -/
def reopenedText : String :=
  "package p \x7b\n  class C \x7b\n    field int x = 1;\n  \x7d\n\x7d\n" ++
    "package p \x7b\n  interface I extends C \x7b\n  \x7d\n\x7d\n"

theorem read_stored_reopenedText : ∃ api, read "api.txt" reopenedText none = .ok api ∧
    api.Invariant ∧ ∃ blocks, Derives reopenedText blocks ∧ api.Lists blocks := by
  obtain ⟨api, whole⟩ := exists_of_isOk
    (show (read "api.txt" reopenedText none).isOk = true by decide +kernel)
  exact ⟨api, whole, read_stored whole⟩

end Signature

end ApiCompat
