import ApiCompat.Proofs.Api.Keyed
import ApiCompat.Proofs.Api.Unplaced

/-!
# Maps told again

A thing that was read from the words of another `Retells` it: it is the same
but for its lines where the other can be read back, and is not the same where
the other cannot.  Maps of things that retell each other do so as a whole.
-/

set_option autoImplicit false

namespace ApiCompat

/-- Agreement of `found` with `told` where `good` holds, and only there. -/
structure Retells {α β : Type} (good : Prop) (plain : α → β) (same : α → α → Bool)
    (found told : α) : Prop where
  equal : good → plain found = plain told
  only : same found told = true → good

/-- The thing without lines. -/
def Located.plain {α β : Type} (plain : α → β) (found : Located α) : Located β :=
  { line := 0, item := plain found.item }

/-- One was read from the words of the other, and under the same key. -/
def Retold {κ α β : Type} (key : α → κ) (good : α → Prop) (plain : α → β)
    (same : α → α → Bool) (found told : Located α) : Prop :=
  key found.item = key told.item ∧ Retells (good told.item) plain same found.item told.item

section Related

variable {α β γ : Type} {related : α → β → Prop} {founds : List α} {tolds : List β}

theorem partner_of_forall₂ (all : List.Forall₂ related founds tolds) :
    ∀ told ∈ tolds, ∃ found ∈ founds, related found told := by
  induction all with
  | nil => simp
  | cons first _ ih =>
      intro told member
      rcases List.mem_cons.mp member with rfl | later
      · exact ⟨_, List.mem_cons_self, first⟩
      · obtain ⟨found, stored, partner⟩ := ih told later
        exact ⟨found, List.mem_cons_of_mem _ stored, partner⟩

theorem map_eq_of_forall₂ {f : α → γ} {g : β → γ} (same : ∀ found told, related found told →
    f found = g told) (all : List.Forall₂ related founds tolds) : founds.map f = tolds.map g := by
  rw [← List.forall₂_eq_eq_eq, List.forall₂_map_left_iff, List.forall₂_map_right_iff]
  exact all.imp same

end Related

section Maps

variable {κ α β : Type} {key : α → κ} {good : α → Prop} {plain : α → β} {same : α → α → Bool}
  {founds tolds : List (Located α)} {map original : OrderedMap κ (Located α)}

theorem plain_of_retold (retold : List.Forall₂ (Retold key good plain same) founds tolds)
    (allGood : ∀ told ∈ tolds, good told.item) :
    founds.map (fun found => (key found.item, found.plain plain)) =
      tolds.map fun told => (key told.item, told.plain plain) := by
  induction retold with
  | nil => rfl
  | @cons found told founds tolds first _ ih =>
      have later := ih fun next member => allGood next (List.mem_cons_of_mem _ member)
      have equal := first.2.equal (allGood told List.mem_cons_self)
      have head : (key found.item, found.plain plain) = (key told.item, told.plain plain) := by
        simp only [Located.plain, first.1, equal]
      rw [List.map_cons, List.map_cons, head, later]

theorem OrderedMap.entries_eq_values
    (keyed : ∀ entry ∈ original.entries, entry.1 = key entry.2.item) :
    original.entries = original.values.map fun told => (key told.item, told) := by
  rw [values, List.map_map]
  have same : original.entries.map id = original.entries := List.map_id _
  rw [← same, List.map_map]
  refine List.map_congr_left fun entry member => ?_
  have named := keyed entry member
  exact Prod.ext named rfl

theorem retells_map [DecidableEq κ]
    (keyed : ∀ entry ∈ original.entries, entry.1 = key entry.2.item)
    (entries : map.entries = founds.map fun found => (key found.item, found))
    (retold : List.Forall₂ (Retold key good plain same) founds original.values) :
    Retells (∀ told ∈ original.values, good told.item)
      (fun map : OrderedMap κ (Located α) => map.mapValues (Located.plain plain))
      (fun map other => map.sameEntries (fun found told => same found.item told.item) other)
      map original where
  equal allGood := by
    have whole := plain_of_retold retold allGood
    apply OrderedMap.ext_entries
    simp only [OrderedMap.mapValues]
    rw [entries, OrderedMap.entries_eq_values keyed, List.map_map, List.map_map]
    exact whole
  only sameEntries := by
    intro told stored
    obtain ⟨found, member, sameKey, retells⟩ := partner_of_forall₂ retold told stored
    have inMap : (key found.item, found) ∈ map.entries := by
      rw [entries]
      exact List.mem_map.mpr ⟨found, member, rfl⟩
    have inOriginal : (key found.item, told) ∈ original.entries := by
      rw [OrderedMap.entries_eq_values keyed, sameKey]
      exact List.mem_map.mpr ⟨told, stored, rfl⟩
    simp only [OrderedMap.sameEntries, Bool.and_eq_true, List.all_eq_true] at sameEntries
    have agrees := sameEntries.2 _ inMap
    rw [(original.get?_eq_some_iff _ _).mpr inOriginal] at agrees
    exact retells.only agrees

end Maps

end ApiCompat
