import ApiCompat.Api.Lookup
import ApiCompat.Proofs.Ordered.Insert

/-!
# What equal descriptions have in common

Equality of descriptions goes over the entries of their maps in any order.
Looked up by name, equal descriptions have equal things at every level
(`Api.rel_of_same`), and equal classes have equal members under every key.
-/

set_option autoImplicit false

namespace ApiCompat

theorem OrderedMap.rel_of_sameEntries {κ α β : Type} [DecidableEq κ] {agree : α → β → Bool}
    {map : OrderedMap κ α} {other : OrderedMap κ β} (same : map.sameEntries agree other = true)
    (key : κ) :
    Option.Rel (fun value value' => agree value value' = true) (map.get? key)
      (other.get? key) := by
  simp only [sameEntries, size, Bool.and_eq_true, beq_iff_eq, List.all_eq_true] at same
  obtain ⟨sizes, agrees⟩ := same
  have agreeing : ∀ key value, (key, value) ∈ map.entries →
      ∃ value', other.get? key = some value' ∧ agree value value' = true := by
    intro key value stored
    have found := agrees (key, value) stored
    cases lookup : other.get? key with
    | none => simp [lookup] at found
    | some value' => exact ⟨value', rfl, by simpa [lookup] using found⟩
  cases lookup : map.get? key with
  | some value =>
      obtain ⟨value', found, agreed⟩ :=
        agreeing key value ((map.get?_eq_some_iff key value).mp lookup)
      rw [found]
      exact .some agreed
  | none =>
      -- As many keys, and all of them in the other map: the other map has no further key.
      have inner : map.keys ⊆ other.keys := by
        intro key' member
        obtain ⟨entry, stored, rfl⟩ := List.mem_map.mp member
        obtain ⟨value', found, _⟩ := agreeing entry.1 entry.2 stored
        exact List.mem_map.mpr ⟨_, (other.get?_eq_some_iff _ _).mp found, rfl⟩
      have lengths : other.keys.length ≤ map.keys.length := by
        rw [keys, keys, List.length_map, List.length_map]
        omega
      have permuted := (List.subperm_of_subset map.distinct inner).perm_of_length_le lengths
      have absent := (map.get?_eq_none_iff key).mp lookup
      have absent' : key ∉ other.keys := fun member => absent (permuted.mem_iff.mpr member)
      rw [(other.get?_eq_none_iff key).mpr absent']
      exact .none

theorem OrderedSet.mem_iff_of_sameElements {α : Type} [DecidableEq α] {set other : OrderedSet α}
    (same : set.sameElements other = true) (element : α) :
    element ∈ set.toList ↔ element ∈ other.toList := by
  constructor
  · intro member
    simp only [sameElements, Bool.and_eq_true, List.all_eq_true, decide_eq_true_eq] at same
    exact same.2 element member
  · exact mem_of_sameElements same

/-- Equal classes have equal declarations and, under every key, equal members. -/
structure ClassDecl.Agrees (cls other : ClassDecl) : Prop where
  name : cls.name = other.name
  qualifiedName : cls.qualifiedName = other.qualifiedName
  kind : cls.kind = other.kind
  modifiers : cls.modifiers = other.modifiers
  typeParams : cls.typeParams = other.typeParams
  superclass : cls.superclass = other.superclass
  interfaces : ∀ type, type ∈ cls.interfaces.toList ↔ type ∈ other.interfaces.toList
  members : ∀ key, Option.Rel (fun member member' => member.item = member'.item)
    (cls.members.get? key) (other.members.get? key)

theorem ClassDecl.agrees_of_same {cls other : ClassDecl} (same : cls.same other = true) :
    cls.Agrees other := by
  simp only [ClassDecl.same, Bool.and_eq_true, beq_iff_eq] at same
  obtain ⟨⟨⟨⟨⟨⟨⟨name, qualifiedName⟩, kind⟩, modifiers⟩, typeParams⟩, superclass⟩, interfaces⟩,
    members⟩ := same
  refine ⟨name, qualifiedName, kind, modifiers, typeParams, superclass,
    OrderedSet.mem_iff_of_sameElements interfaces, fun key => ?_⟩
  have related := OrderedMap.rel_of_sameEntries members key
  simpa only [beq_iff_eq] using related

/-- Under every name, equal descriptions have equal classes or none. -/
theorem Api.rel_of_same {api other : Api} (same : api.same other = true) (package name : String) :
    Option.Rel (fun cls cls' => cls.item.Agrees cls'.item) (api.classIn? package name)
      (other.classIn? package name) := by
  simp only [Api.same, Bool.and_eq_true] at same
  apply rel_bind (OrderedMap.rel_of_sameEntries same.2 package)
  intro holder holder' agreed
  simp only [Package.same, Bool.and_eq_true] at agreed
  apply rel_imp (OrderedMap.rel_of_sameEntries agreed.2 name)
  intro cls cls' agreed'
  exact ClassDecl.agrees_of_same agreed'

end ApiCompat
