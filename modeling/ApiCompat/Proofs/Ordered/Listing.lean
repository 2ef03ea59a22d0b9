import ApiCompat.Proofs.Ordered.Lookup
import Mathlib.Data.List.Forall2
import Mathlib.Data.List.Nodup
import Mathlib.Data.List.Perm.Basic

/-!
# Listing the values of related maps

Two maps are related when looking up any key finds related values in both, or
nothing in both.  What is listed value by value is then a rearrangement of one
another (`OrderedMap.rearranged_flatMap`), and the same if the keys of both
maps come in one order.
-/

set_option autoImplicit false

namespace ApiCompat

/-- The elements of one list in some order, and in the same order if `ordered` holds. -/
def Rearranged {α : Type} (ordered : Prop) (first second : List α) : Prop :=
  first.Perm second ∧ (ordered → first = second)

section Rearranged

variable {α β : Type} {ordered ordered' : Prop} {first second later later' : List α}

theorem rearranged_of_eq (same : first = second) : Rearranged ordered first second :=
  ⟨same ▸ List.Perm.refl first, fun _ => same⟩

theorem Rearranged.mono (rearranged : Rearranged ordered first second)
    (weaker : ordered' → ordered) : Rearranged ordered' first second :=
  ⟨rearranged.1, fun holds => rearranged.2 (weaker holds)⟩

theorem Rearranged.append (front : Rearranged ordered first second)
    (back : Rearranged ordered later later') :
    Rearranged ordered (first ++ later) (second ++ later') :=
  ⟨front.1.append back.1, fun holds => by rw [front.2 holds, back.2 holds]⟩

theorem Rearranged.flatMap (rearranged : Rearranged ordered first second)
    (block : α → List β) : Rearranged ordered (first.flatMap block) (second.flatMap block) :=
  ⟨rearranged.1.flatMap_right block, fun holds => by rw [rearranged.2 holds]⟩

theorem Rearranged.map (rearranged : Rearranged ordered first second) (f : α → β) :
    Rearranged ordered (first.map f) (second.map f) :=
  ⟨rearranged.1.map f, fun holds => by rw [rearranged.2 holds]⟩

/-- Each element of a list gives a block; the blocks are rearranged one by one. -/
theorem rearranged_blocks {items : List α} {block block' : α → List β}
    (each : ∀ item ∈ items, Rearranged ordered (block item) (block' item)) :
    Rearranged ordered (items.flatMap block) (items.flatMap block') :=
  ⟨List.Perm.flatMap_left _ fun item member => (each item member).1,
    fun holds => List.flatMap_congr fun item member => (each item member).2 holds⟩

end Rearranged

namespace OrderedMap

variable {κ α β γ : Type} [DecidableEq κ] {map : OrderedMap κ α} {other : OrderedMap κ β}
  {related : α → β → Prop}

/-- The values of a map, taken by their keys. -/
theorem flatMap_values (map : OrderedMap κ α) (block : α → List γ) :
    map.values.flatMap block =
      map.keys.flatMap fun key => ((map.get? key).map block).getD [] := by
  have byKey : ∀ entry ∈ map.entries,
      block entry.2 = ((map.get? entry.1).map block).getD [] := by
    intro entry stored
    rw [(map.get?_eq_some_iff entry.1 entry.2).mpr stored]
    rfl
  rw [values, keys, List.flatMap_map, List.flatMap_map]
  exact List.flatMap_congr byKey

theorem keys_perm_of_rel
    (rel : ∀ key, Option.Rel related (map.get? key) (other.get? key)) :
    map.keys.Perm other.keys := by
  refine (List.perm_ext_iff_of_nodup map.distinct other.distinct).mpr fun key => ?_
  have missing := none_iff_of_rel (rel key)
  rw [get?_eq_none_iff, get?_eq_none_iff] at missing
  exact not_iff_not.mp missing

theorem rearranged_flatMap {ordered : Prop} {block : α → List γ} {block' : β → List γ}
    (rel : ∀ key, Option.Rel related (map.get? key) (other.get? key))
    (order : ordered → map.keys = other.keys)
    (each : ∀ key value value', map.get? key = some value → other.get? key = some value' →
      related value value' → Rearranged ordered (block value) (block' value')) :
    Rearranged ordered (map.values.flatMap block) (other.values.flatMap block') := by
  rw [flatMap_values, flatMap_values]
  have keys : Rearranged ordered map.keys other.keys := ⟨keys_perm_of_rel rel, order⟩
  have front := keys.flatMap fun key => ((map.get? key).map block).getD []
  have back : Rearranged ordered
      (other.keys.flatMap fun key => ((map.get? key).map block).getD [])
      (other.keys.flatMap fun key => ((other.get? key).map block').getD []) := by
    refine rearranged_blocks fun key _ => ?_
    have both := rel key
    have eachHere := each key
    generalize map.get? key = found, other.get? key = found' at both eachHere
    cases both with
    | none => exact rearranged_of_eq rfl
    | some both => exact eachHere _ _ rfl rfl both
  exact ⟨front.1.trans back.1, fun holds => (front.2 holds).trans (back.2 holds)⟩

/-- Entries that come in the same order have the same keys, and related values under each. -/
theorem ordered_of_entries
    (ordered : List.Forall₂ (fun entry entry' => entry.1 = entry'.1 ∧ related entry.2 entry'.2)
      map.entries other.entries) :
    map.keys = other.keys ∧
      ∀ key value value', map.get? key = some value → other.get? key = some value' →
        related value value' := by
  have keys : map.entries.map Prod.fst = other.entries.map Prod.fst := by
    rw [← List.forall₂_eq_eq_eq, List.forall₂_map_left_iff, List.forall₂_map_right_iff]
    exact ordered.imp fun _ _ both => both.1
  refine ⟨keys, fun key value value' found found' => ?_⟩
  have stored := (map.get?_eq_some_iff key value).mp found
  have stored' := (other.get?_eq_some_iff key value').mp found'
  obtain ⟨place, inside, here⟩ := List.mem_iff_getElem.mp stored
  obtain ⟨inside', both⟩ := List.forall₂_iff_get.mp ordered
  have pair := both place inside (inside' ▸ inside)
  simp only [List.get_eq_getElem, here] at pair
  have there : (key, other.entries[place].2) ∈ other.entries := by
    rw [pair.1]
    exact List.getElem_mem _
  rw [← other.entry_unique key _ _ there stored']
  exact pair.2

end OrderedMap

end ApiCompat
