import ApiCompat.Proofs.Ordered.Insert
import Mathlib.Data.List.Forall2

/-!
# Ordered maps compared entry by entry

Two maps are `Pointwise` related if they have the same keys in the same order
and the values of each key are related.  An insertion into both of them keeps
that, whether it adds an entry or replaces a value.
-/

set_option autoImplicit false

namespace ApiCompat.OrderedMap

variable {κ α β γ : Type} {related : α → β → Prop} {map : OrderedMap κ α} {other : OrderedMap κ β}

def Pointwise (related : α → β → Prop) (map : OrderedMap κ α) (other : OrderedMap κ β) : Prop :=
  List.Forall₂ (fun entry entry' => entry.1 = entry'.1 ∧ related entry.2 entry'.2) map.entries
    other.entries

theorem pointwise_empty : Pointwise related (empty : OrderedMap κ α) empty := .nil

namespace Pointwise

theorem values (pointwise : Pointwise related map other) :
    List.Forall₂ related map.values other.values := by
  rw [OrderedMap.values, OrderedMap.values, List.forall₂_map_left_iff, List.forall₂_map_right_iff]
  exact pointwise.imp fun _ _ entries => entries.2

/-- Functions that agree on related values make the maps equal. -/
theorem mapValues_eq {f : α → γ} {g : β → γ} (pointwise : Pointwise related map other)
    (agree : ∀ value value', related value value' → f value = g value') :
    map.mapValues f = other.mapValues g := by
  apply ext_entries
  rw [mapValues, mapValues, ← List.forall₂_eq_eq_eq, List.forall₂_map_left_iff,
    List.forall₂_map_right_iff]
  exact pointwise.imp fun _ _ entries => Prod.ext entries.1 (agree _ _ entries.2)

variable [DecidableEq κ]

theorem get? (pointwise : Pointwise related map other) (key : κ) :
    Option.Rel related (map.get? key) (other.get? key) := by
  unfold Pointwise at pointwise
  rw [OrderedMap.get?, OrderedMap.get?]
  generalize map.entries = entries at pointwise ⊢
  generalize other.entries = entries' at pointwise ⊢
  induction pointwise with
  | nil => exact .none
  | @cons entry entry' _ _ first _ ih =>
      simp only [List.find?_cons, ← first.1]
      split
      · exact .some first.2
      · exact ih

theorem contains_eq (pointwise : Pointwise related map other) (key : κ) :
    map.contains key = other.contains key := by
  have found := pointwise.get? key
  rw [OrderedMap.contains, OrderedMap.contains]
  generalize map.get? key = value at found
  generalize other.get? key = value' at found
  cases found <;> rfl

theorem insert (pointwise : Pointwise related map other) (key : κ) {value : α} {value' : β}
    (holds : related value value') :
    Pointwise related (map.insert key value) (other.insert key value') := by
  unfold Pointwise at pointwise ⊢
  simp only [OrderedMap.insert]
  generalize map.entries = entries at pointwise ⊢
  generalize other.entries = entries' at pointwise ⊢
  induction pointwise with
  | nil => exact .cons ⟨rfl, holds⟩ .nil
  | @cons entry entry' _ _ first later ih =>
      simp only [putEntry, ← first.1]
      split
      · exact .cons ⟨rfl, holds⟩ later
      · exact .cons first ih

end Pointwise

end ApiCompat.OrderedMap
