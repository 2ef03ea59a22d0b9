import ApiCompat.Ordered.Map
import Mathlib.Data.List.Nodup

/-!
# Looking up keys in ordered maps

A key of an `OrderedMap` has at most one value, so looking it up and finding
its entry in the list are the same thing (`OrderedMap.get?_eq_some_iff`).  Two
lookups are related when both find nothing, or both find something and what
they find is related.
-/

set_option autoImplicit false

namespace ApiCompat

/-! ## Related lookups -/

theorem found_of_rel {α β : Type} {both : α → β → Prop} {first : Option α} {second : Option β}
    (rel : Option.Rel both first second) :
    (∀ a, first = some a → ∃ b, second = some b ∧ both a b) ∧
      ∀ b, second = some b → ∃ a, first = some a ∧ both a b := by
  cases rel with
  | none => simp
  | some related => simp [related]

/-- Each of two lookups finds something where the other does, and the two are related each way. -/
theorem rel_both_ways_iff {α β : Type} {there : α → β → Prop} {back : β → α → Prop}
    {both : α → β → Prop} {first : Option α} {second : Option β}
    (meet : ∀ a b, first = some a → second = some b → (there a b ∧ back b a ↔ both a b)) :
    (∀ a, first = some a → ∃ b, second = some b ∧ there a b) ∧
        (∀ b, second = some b → ∃ a, first = some a ∧ back b a) ↔
      Option.Rel both first second := by
  constructor
  · rintro ⟨forth, again⟩
    cases hit : first with
    | none =>
        cases hit' : second with
        | none => exact .none
        | some b =>
            obtain ⟨a, found, _⟩ := again b hit'
            rw [hit] at found
            cases found
    | some a =>
        obtain ⟨b, found, compatible⟩ := forth a hit
        obtain ⟨a', found', compatible'⟩ := again b found
        obtain rfl : a = a' := Option.some.inj (hit.symm.trans found')
        rw [found]
        exact .some ((meet a b hit found).mp ⟨compatible, compatible'⟩)
  · intro rel
    constructor
    · intro a hit
      obtain ⟨b, hit', related⟩ := (found_of_rel rel).1 a hit
      exact ⟨b, hit', ((meet a b hit hit').mpr related).1⟩
    · intro b hit'
      obtain ⟨a, hit, related⟩ := (found_of_rel rel).2 b hit'
      exact ⟨a, hit, ((meet a b hit hit').mpr related).2⟩

theorem none_of_rel {α β : Type} {both : α → β → Prop} {first : Option α} {second : Option β}
    (rel : Option.Rel both first second) (missing : first = none) : second = none := by
  cases rel with
  | none => rfl
  | some => cases missing

theorem none_iff_of_rel {α β : Type} {both : α → β → Prop} {first : Option α} {second : Option β}
    (rel : Option.Rel both first second) : first = none ↔ second = none := by
  cases rel <;> simp

theorem eq_of_rel {α : Type} {first second : Option α} (rel : Option.Rel Eq first second) :
    first = second := by
  cases rel with
  | none => rfl
  | some same => rw [same]

theorem rel_imp {α β : Type} {weak strong : α → β → Prop} {first : Option α} {second : Option β}
    (rel : Option.Rel strong first second) (imp : ∀ a b, strong a b → weak a b) :
    Option.Rel weak first second := by
  cases rel with
  | none => exact .none
  | some related => exact .some (imp _ _ related)

theorem rel_bind {α β γ δ : Type} {outer : α → β → Prop} {inner : γ → δ → Prop}
    {first : Option α} {second : Option β} {f : α → Option γ} {g : β → Option δ}
    (rel : Option.Rel outer first second)
    (next : ∀ a b, outer a b → Option.Rel inner (f a) (g b)) :
    Option.Rel inner (first.bind f) (second.bind g) := by
  cases rel with
  | none => exact .none
  | some related => exact next _ _ related

/-! ## Looking up -/

namespace OrderedMap

variable {κ α : Type}

theorem mem_values_iff (map : OrderedMap κ α) (value : α) :
    value ∈ map.values ↔ ∃ key, (key, value) ∈ map.entries := by
  rw [values, List.mem_map]
  constructor
  · rintro ⟨⟨key, _⟩, member, rfl⟩
    exact ⟨key, member⟩
  · rintro ⟨key, member⟩
    exact ⟨(key, value), member, rfl⟩

/-- Distinct keys: two entries of one key are one entry. -/
theorem entry_unique (map : OrderedMap κ α) (key : κ) (first second : α)
    (firstMember : (key, first) ∈ map.entries) (secondMember : (key, second) ∈ map.entries) :
    first = second := by
  have same := List.inj_on_of_nodup_map map.distinct firstMember secondMember rfl
  exact congrArg Prod.snd same

/-- A name that every value has in common with its key tells the values apart. -/
theorem nodup_map_values (map : OrderedMap κ α) (name : α → κ)
    (named : ∀ entry ∈ map.entries, entry.1 = name entry.2) : (map.values.map name).Nodup := by
  have same : map.values.map name = map.entries.map Prod.fst := by
    rw [values, List.map_map]
    exact List.map_congr_left fun entry member => (named entry member).symm
  rw [same]
  exact map.distinct

variable [DecidableEq κ]

theorem get?_eq_some_iff (map : OrderedMap κ α) (key : κ) (value : α) :
    map.get? key = some value ↔ (key, value) ∈ map.entries := by
  simp only [get?, Option.map_eq_some_iff]
  constructor
  · rintro ⟨⟨key', value'⟩, found, rfl⟩
    have same : key' = key := by simpa using List.find?_some found
    subst same
    exact List.mem_of_find?_eq_some found
  · intro member
    cases found : map.entries.find? fun entry => decide (entry.1 = key) with
    | none =>
        have missing := List.find?_eq_none.mp found (key, value) member
        simp at missing
    | some entry =>
        obtain ⟨key', value'⟩ := entry
        have same : key' = key := by simpa using List.find?_some found
        subst same
        have stored := List.mem_of_find?_eq_some found
        exact ⟨(key', value'), rfl, map.entry_unique key' value' value stored member⟩

theorem get?_mapValues {β : Type} (map : OrderedMap κ α) (f : α → β) (key : κ) :
    (map.mapValues f).get? key = (map.get? key).map f := by
  simp [get?, mapValues, List.find?_map, Function.comp_def]

theorem get?_eq_none_iff (map : OrderedMap κ α) (key : κ) :
    map.get? key = none ↔ key ∉ map.keys := by
  simp only [get?, keys, Option.map_eq_none_iff, List.find?_eq_none, decide_eq_true_eq,
    List.mem_map, not_exists, not_and]

theorem mem_values_of_get? {map : OrderedMap κ α} {key : κ} {value : α}
    (found : map.get? key = some value) : value ∈ map.values :=
  (map.mem_values_iff value).mpr ⟨key, (map.get?_eq_some_iff key value).mp found⟩

theorem mem_keys_of_get? {map : OrderedMap κ α} {key : κ} {value : α}
    (found : map.get? key = some value) : key ∈ map.keys :=
  List.mem_map.mpr ⟨_, (map.get?_eq_some_iff key value).mp found, rfl⟩

end OrderedMap

end ApiCompat
