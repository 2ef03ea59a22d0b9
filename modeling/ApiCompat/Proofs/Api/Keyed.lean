import ApiCompat.Api.Lookup
import ApiCompat.Proofs.Ordered.Lookup

/-!
# Things stored under their own names

In a `Keyed` API every package and class is stored under its name and every
member under the key it computes, as in every API that was read from a text.
Looking something up by the name it has then finds that very thing.
-/

set_option autoImplicit false

namespace ApiCompat

/-- Every member is stored under the key it computes. -/
def ClassDecl.Keyed (cls : ClassDecl) : Prop :=
  ∀ entry ∈ cls.members.entries, entry.1 = entry.2.item.key

/-- Every class is stored under its name and keyed itself. -/
def Package.Keyed (package : Package) : Prop :=
  ∀ entry ∈ package.classes.entries, entry.1 = entry.2.item.name ∧ entry.2.item.Keyed

/-- Every package is stored under its name and keyed itself. -/
def Api.Keyed (api : Api) : Prop :=
  ∀ entry ∈ api.packages.entries, entry.1 = entry.2.item.name ∧ entry.2.item.Keyed

instance (cls : ClassDecl) : Decidable cls.Keyed :=
  inferInstanceAs (Decidable (∀ entry ∈ cls.members.entries, entry.1 = entry.2.item.key))

instance (package : Package) : Decidable package.Keyed :=
  inferInstanceAs (Decidable (∀ entry ∈ package.classes.entries,
    entry.1 = entry.2.item.name ∧ entry.2.item.Keyed))

instance (api : Api) : Decidable api.Keyed :=
  inferInstanceAs (Decidable (∀ entry ∈ api.packages.entries,
    entry.1 = entry.2.item.name ∧ entry.2.item.Keyed))

theorem ClassDecl.Keyed.get?_key {cls : ClassDecl} (keyed : cls.Keyed) {member : Located Member}
    (stored : member ∈ cls.members.values) : cls.members.get? member.item.key = some member := by
  obtain ⟨key, entry⟩ := (cls.members.mem_values_iff member).mp stored
  rw [← keyed (key, member) entry]
  exact (cls.members.get?_eq_some_iff key member).mpr entry

theorem ClassDecl.Keyed.key_of_get? {cls : ClassDecl} (keyed : cls.Keyed) {key : MemberKey}
    {member : Located Member} (found : cls.members.get? key = some member) :
    member.item.key = key :=
  (keyed (key, member) ((cls.members.get?_eq_some_iff key member).mp found)).symm

theorem ClassDecl.Keyed.keys_nodup {cls : ClassDecl} (keyed : cls.Keyed) :
    (cls.members.values.map fun member => member.item.key).Nodup :=
  cls.members.nodup_map_values _ keyed

theorem ClassDecl.Keyed.forall_member_iff {cls : ClassDecl} (keyed : cls.Keyed)
    (property : MemberKey → Located Member → Prop) :
    (∀ member ∈ cls.members.values, property member.item.key member) ↔
      ∀ key member, cls.members.get? key = some member → property key member := by
  constructor
  · intro all key member found
    rw [← keyed.key_of_get? found]
    exact all member (OrderedMap.mem_values_of_get? found)
  · intro all member stored
    exact all member.item.key member (keyed.get?_key stored)

theorem Package.Keyed.name_of_get? {package : Package} (keyed : package.Keyed) {name : String}
    {cls : Located ClassDecl} (found : package.classes.get? name = some cls) :
    cls.item.name = name ∧ cls.item.Keyed := by
  obtain ⟨same, inner⟩ :=
    keyed (name, cls) ((package.classes.get?_eq_some_iff name cls).mp found)
  exact ⟨same.symm, inner⟩

theorem Package.Keyed.get?_name {package : Package} (keyed : package.Keyed)
    {cls : Located ClassDecl} (stored : cls ∈ package.classes.values) :
    package.classes.get? cls.item.name = some cls := by
  obtain ⟨name, entry⟩ := (package.classes.mem_values_iff cls).mp stored
  rw [← (keyed (name, cls) entry).1]
  exact (package.classes.get?_eq_some_iff name cls).mpr entry

theorem Package.Keyed.names_nodup {package : Package} (keyed : package.Keyed) :
    (package.classes.values.map fun cls => cls.item.name).Nodup :=
  package.classes.nodup_map_values _ fun entry member => (keyed entry member).1

theorem Api.Keyed.name_of_get? {api : Api} (keyed : api.Keyed) {name : String}
    {package : Located Package} (found : api.packages.get? name = some package) :
    package.item.name = name ∧ package.item.Keyed := by
  obtain ⟨same, inner⟩ :=
    keyed (name, package) ((api.packages.get?_eq_some_iff name package).mp found)
  exact ⟨same.symm, inner⟩

theorem Api.Keyed.get?_name {api : Api} (keyed : api.Keyed) {package : Located Package}
    (stored : package ∈ api.packages.values) :
    api.packages.get? package.item.name = some package := by
  obtain ⟨name, entry⟩ := (api.packages.mem_values_iff package).mp stored
  rw [← (keyed (name, package) entry).1]
  exact (api.packages.get?_eq_some_iff name package).mpr entry

theorem Api.Keyed.names_nodup {api : Api} (keyed : api.Keyed) :
    (api.packages.values.map fun package => package.item.name).Nodup :=
  api.packages.nodup_map_values _ fun entry member => (keyed entry member).1

end ApiCompat
