import ApiCompat.Proofs.Compare.Visits
import ApiCompat.Proofs.Ordered.Adjust
import Mathlib.Data.List.Forall2

/-!
# Findings are local

The findings of a comparison come in blocks, one for each thing visited.  A
change of one member changes the block of that member and no other, and a
change of the kind of a class changes the one about the class itself.  If the
previous API tells its things apart by name, that is one run of the report
(`compare_local`); if it does not, the blocks of two things of one name change
together (`compare_not_local`).
-/

set_option autoImplicit false

namespace ApiCompat

/-! ## Changes of one class -/

def Package.adjustClass (package : Package) (name : String) (change : ClassDecl → ClassDecl) :
    Package :=
  { package with
    classes := package.classes.adjust name fun cls => { cls with item := change cls.item } }

def Api.adjustClass (api : Api) (package name : String) (change : ClassDecl → ClassDecl) : Api :=
  { api with
    packages := api.packages.adjust package fun found =>
      { found with item := found.item.adjustClass name change } }

def ClassDecl.withMember (cls : ClassDecl) (key : MemberKey) (declaration : Located Member) :
    ClassDecl :=
  { cls with members := cls.members.adjust key fun _ => declaration }

def ClassDecl.withKind (cls : ClassDecl) (kind : ClassKind) : ClassDecl := { cls with kind }

/-- The API with another declaration under a key of a class, if the key is there. -/
def Api.withMember (api : Api) (package name : String) (key : MemberKey)
    (declaration : Located Member) : Api :=
  api.adjustClass package name fun cls => cls.withMember key declaration

def Api.withKind (api : Api) (package name : String) (kind : ClassKind) : Api :=
  api.adjustClass package name fun cls => cls.withKind kind

/-! ## Things told apart -/

def ClassDecl.Apart (cls : ClassDecl) : Prop :=
  (cls.members.values.map fun member => member.item.key).Nodup

def Package.Apart (package : Package) : Prop :=
  (package.classes.values.map fun cls => cls.item.name).Nodup ∧
    ∀ cls ∈ package.classes.values, cls.item.Apart

/-- No two packages have one name, and what is inside each is told apart. -/
def Api.Apart (api : Api) : Prop :=
  (api.packages.values.map fun package => package.item.name).Nodup ∧
    ∀ package ∈ api.packages.values, package.item.Apart

instance (cls : ClassDecl) : Decidable cls.Apart :=
  inferInstanceAs (Decidable (cls.members.values.map fun member => member.item.key).Nodup)

instance (package : Package) : Decidable package.Apart :=
  inferInstanceAs (Decidable ((package.classes.values.map fun cls => cls.item.name).Nodup ∧
    ∀ cls ∈ package.classes.values, cls.item.Apart))

instance (api : Api) : Decidable api.Apart :=
  inferInstanceAs (Decidable ((api.packages.values.map fun package => package.item.name).Nodup ∧
    ∀ package ∈ api.packages.values, package.item.Apart))

/-- What is stored under its own name is told apart by it. -/
theorem Api.Keyed.apart {api : Api} (keyed : api.Keyed) : api.Apart := by
  refine ⟨keyed.names_nodup, fun package stored => ?_⟩
  have packageKeyed := (keyed.name_of_get? (keyed.get?_name stored)).2
  refine ⟨packageKeyed.names_nodup, fun cls classStored => ?_⟩
  exact (packageKeyed.name_of_get? (packageKeyed.get?_name classStored)).2.keys_nodup

namespace Compare

/-! ## Blocks -/

def Visit.block (sources : Sources) (visit : Visit) : Subject × List Finding :=
  (visit.subject, visit.findings sources)

def blocks (previous current : Api) : List (Subject × List Finding) :=
  (visits previous current).map
    (Visit.block { previous := previous.source, current := current.source })

/-- The findings of blocks, each with what it is about. -/
def labelled (found : List (Subject × List Finding)) : List (Subject × Finding) :=
  found.flatMap fun block => block.2.map fun finding => (block.1, finding)

theorem attributed_blocks (previous current : Api) :
    attributed previous current = labelled (blocks previous current) := by
  rw [attributed_eq, labelled, blocks, List.flatMap_map]
  rfl

/-! ### The subjects of the blocks -/

/-- The name of the package that a subject is or is inside of. -/
def Subject.packageName : Subject → String
  | .package holder => holder
  | .cls holder _ => holder
  | .member holder _ _ => holder

def Subject.className : Subject → String
  | .package _ => ""
  | .cls _ name => name
  | .member _ name _ => name

/-- Blocks without repeats have none together if the names of what they belong to do not repeat. -/
theorem nodup_flatMap_labelled {α β κ : Type} {items : List α} {name : α → κ}
    {block : α → List β} {label : β → κ} (distinct : (items.map name).Nodup)
    (inner : ∀ item ∈ items, (block item).Nodup)
    (labelled : ∀ item ∈ items, ∀ element ∈ block item, label element = name item) :
    (items.flatMap block).Nodup := by
  rw [List.nodup_flatMap]
  refine ⟨inner, (List.pairwise_map.mp distinct).imp_of_mem ?_⟩
  intro first second inFirst inSecond differs element member member'
  exact differs ((labelled first inFirst element member).symm.trans
    (labelled second inSecond element member'))

theorem keptVisits_subjects (package : String) (was now : Located ClassDecl) :
    (keptVisits package was now).map Visit.subject =
      .cls package was.item.name :: was.item.members.values.map fun member =>
        .member package was.item.name member.item.key := by
  rw [keptVisits, List.map_cons, List.map_map]
  congr 1
  exact List.map_congr_left fun member _ => memberVisit_subject _ _ _ member

/-- What the visits to a class are about: the class and its members. -/
theorem classVisits_subjects {package : String} {found : Package} {was : Located ClassDecl}
    {subject : Subject} (member : subject ∈ (classVisits package found was).map Visit.subject) :
    subject.packageName = package ∧ subject.className = was.item.name := by
  unfold classVisits at member
  split at member
  · rw [keptVisits_subjects] at member
    rcases List.mem_cons.mp member with rfl | inside
    · exact ⟨rfl, rfl⟩
    · obtain ⟨_, _, rfl⟩ := List.mem_map.mp inside
      exact ⟨rfl, rfl⟩
  · obtain rfl := List.mem_singleton.mp member
    exact ⟨rfl, rfl⟩

theorem nodup_classVisits (package : String) (found : Package) {was : Located ClassDecl}
    (apart : was.item.Apart) : ((classVisits package found was).map Visit.subject).Nodup := by
  unfold classVisits
  split
  · have members : (was.item.members.values.map fun member =>
        Subject.member package was.item.name member.item.key).Nodup := by
      have keys := List.Nodup.map (f := Subject.member package was.item.name)
        (fun _ _ same => (Subject.member.inj same).2.2) apart
      rwa [List.map_map] at keys
    rw [keptVisits_subjects, List.nodup_cons]
    refine ⟨fun inside => ?_, members⟩
    obtain ⟨_, _, same⟩ := List.mem_map.mp inside
    cases same
  · exact List.nodup_singleton _

theorem packageVisits_subjects {current : Api} {was : Located Package} {subject : Subject}
    (member : subject ∈ (packageVisits current was).map Visit.subject) :
    subject.packageName = was.item.name := by
  unfold packageVisits at member
  split at member
  · rw [List.map_flatMap] at member
    obtain ⟨cls, _, inClass⟩ := List.mem_flatMap.mp member
    exact (classVisits_subjects inClass).1
  · obtain rfl := List.mem_singleton.mp member
    rfl

theorem nodup_packageVisits (current : Api) {was : Located Package} (apart : was.item.Apart) :
    ((packageVisits current was).map Visit.subject).Nodup := by
  unfold packageVisits
  split
  · rw [List.map_flatMap]
    apply nodup_flatMap_labelled apart.1
    · intro cls stored
      exact nodup_classVisits _ _ (apart.2 cls stored)
    · intro cls _ subject member
      exact (classVisits_subjects member).2
  · exact List.nodup_singleton _

/-- Of things told apart by name, no two blocks are about the same. -/
theorem nodup_subjects (current : Api) {previous : Api} (apart : previous.Apart) :
    ((blocks previous current).map Prod.fst).Nodup := by
  have subjects : (blocks previous current).map Prod.fst =
      previous.packages.values.flatMap fun was =>
        (packageVisits current was).map Visit.subject := by
    rw [blocks, List.map_map, visits, List.map_flatMap]
    rfl
  rw [subjects]
  apply nodup_flatMap_labelled apart.1
  · intro package stored
    exact nodup_packageVisits current (apart.2 package stored)
  · intro package _ subject member
    exact packageVisits_subjects member

/-! ## Blocks that agree but for a subject -/

/-- The same blocks, but for what is found about the subject. -/
def SameBut (subject : Subject) (first second : List (Subject × List Finding)) : Prop :=
  List.Forall₂ (fun block block' => block.1 = block'.1 ∧ (block.1 ≠ subject → block.2 = block'.2))
    first second

namespace SameBut

variable {subject : Subject} {first second : List (Subject × List Finding)}

theorem refl (subject : Subject) (found : List (Subject × List Finding)) :
    SameBut subject found found :=
  List.forall₂_same.mpr fun _ _ => ⟨rfl, fun _ => rfl⟩

theorem flatMap {α : Type} {items : List α} {block block' : α → List (Subject × List Finding)}
    (each : ∀ item ∈ items, SameBut subject (block item) (block' item)) :
    SameBut subject (items.flatMap block) (items.flatMap block') := by
  induction items with
  | nil => exact .nil
  | cons item items ih =>
      exact List.rel_append (each item List.mem_cons_self)
        (ih fun other member => each other (List.mem_cons_of_mem _ member))

/-- Without a block about the subject nothing differs. -/
theorem eq_of_fresh (same : SameBut subject first second)
    (fresh : subject ∉ first.map Prod.fst) : first = second := by
  induction same with
  | nil => rfl
  | @cons block block' _ _ agree _ ih =>
      rw [List.map_cons, List.mem_cons, not_or] at fresh
      rw [ih fresh.2, Prod.ext agree.1 (agree.2 (Ne.symm fresh.1))]

/-- With one block about the subject nothing differs around it. -/
theorem around {front back : List (Subject × List Finding)} {found : List Finding}
    (same : SameBut subject (front ++ (subject, found) :: back) second)
    (before : subject ∉ front.map Prod.fst) (after : subject ∉ back.map Prod.fst) :
    ∃ found', second = front ++ (subject, found') :: back := by
  induction front generalizing second with
  | nil =>
      cases same with
      | @cons _ block' _ _ agree later =>
          obtain ⟨subject', found'⟩ := block'
          obtain rfl : subject = subject' := agree.1
          rw [← eq_of_fresh later after]
          exact ⟨found', rfl⟩
  | cons block front ih =>
      rw [List.map_cons, List.mem_cons, not_or] at before
      cases same with
      | @cons _ block' _ _ agree later =>
          obtain ⟨found', rfl⟩ := ih later before.2
          have kept : block = block' := Prod.ext agree.1 (agree.2 (Ne.symm before.1))
          exact ⟨found', by rw [kept]; rfl⟩

theorem exists_found (same : SameBut subject first second) {found : List Finding}
    (here : (subject, found) ∈ first) : ∃ found', (subject, found') ∈ second := by
  induction same with
  | nil => cases here
  | @cons _ block' _ _ agree _ ih =>
      rcases List.mem_cons.mp here with rfl | later
      · exact ⟨block'.2, List.mem_cons.mpr (.inl (Prod.ext agree.1 rfl))⟩
      · obtain ⟨found', there⟩ := ih later
        exact ⟨found', List.mem_cons_of_mem _ there⟩

end SameBut

/-! ## Changes of the current API -/

/-- What the visits to a class say, if it says the same with a change but about the subject, is all
that a change of the class can touch. -/
theorem sameBut_current {subject : Subject} {previous current : Api} {package name : String}
    {change : ClassDecl → ClassDecl}
    (inside : ∀ sources, ∀ was now : Located ClassDecl, was.item.name = name →
      SameBut subject ((keptVisits package was now).map (Visit.block sources))
        ((keptVisits package was { now with item := change now.item }).map
          (Visit.block sources))) :
    SameBut subject (blocks previous current)
      (blocks previous (current.adjustClass package name change)) := by
  rw [blocks, blocks, visits, visits, List.map_flatMap, List.map_flatMap]
  apply SameBut.flatMap
  intro was _
  simp only [packageVisits, Api.adjustClass, OrderedMap.get?_adjust]
  by_cases samePackage : was.item.name = package
  · rw [if_pos samePackage]
    cases current.packages.get? was.item.name with
    | none => exact SameBut.refl _ _
    | some found =>
        simp only [Option.map_some, List.map_flatMap]
        apply SameBut.flatMap
        intro cls _
        simp only [classVisits, Package.adjustClass, OrderedMap.get?_adjust]
        by_cases sameClass : cls.item.name = name
        · rw [if_pos sameClass]
          cases found.item.classes.get? cls.item.name with
          | none => exact SameBut.refl _ _
          | some now =>
              rw [samePackage]
              exact inside _ cls now sameClass
        · rw [if_neg sameClass]
          exact SameBut.refl _ _
  · rw [if_neg samePackage]
    exact SameBut.refl _ _

/-- Visits to one class and its members, before and after a change of either version. -/
theorem sameBut_keptVisits {subject : Subject} {sources : Sources} {package : String}
    {was was' now now' : Located ClassDecl} (names : was.item.name = was'.item.name)
    (members : was.item.members = was'.item.members)
    (declared : subject ≠ .cls package was.item.name →
      (Visit.keptClass package was now).findings sources =
        (Visit.keptClass package was' now').findings sources)
    (outcomes : ∀ member : Located Member,
      subject ≠ .member package was.item.name member.item.key →
      memberOutcome sources was.item now.item member =
        memberOutcome sources was'.item now'.item member) :
    SameBut subject ((keptVisits package was now).map (Visit.block sources))
      ((keptVisits package was' now').map (Visit.block sources)) := by
  refine .cons ⟨?_, fun other => declared (Ne.symm other)⟩ ?_
  · simp only [Visit.block, Visit.subject, names]
  · rw [← members, List.map_map, List.map_map, List.forall₂_map_left_iff,
      List.forall₂_map_right_iff, List.forall₂_same]
    intro member _
    simp only [Function.comp_apply, Visit.block, memberVisit_subject, memberVisit_findings, names]
    refine ⟨trivial, fun other => outcomes member ?_⟩
    rw [names]
    exact Ne.symm other

/-- A member with another declaration in the current API: only the block of that member differs. -/
theorem sameBut_withMember (previous current : Api) (package name : String) (key : MemberKey)
    (declaration : Located Member) :
    SameBut (.member package name key) (blocks previous current)
      (blocks previous (current.withMember package name key declaration)) := by
  apply sameBut_current
  intro sources was now sameName
  refine sameBut_keptVisits rfl rfl (fun _ => rfl) fun member other => ?_
  have otherKey : member.item.key ≠ key := fun same => other (by rw [sameName, same])
  exact memberOutcome_congr sources rfl rfl rfl (OrderedMap.get?_adjust_of_ne _ otherKey _).symm

/-- A class of another kind in the current API: only the block of the class itself differs. -/
theorem sameBut_currentKind (previous current : Api) (package name : String) (kind : ClassKind) :
    SameBut (.cls package name) (blocks previous current)
      (blocks previous (current.withKind package name kind)) := by
  apply sameBut_current
  intro sources was now sameName
  refine sameBut_keptVisits rfl rfl (fun other => ?_) fun member _ =>
    memberOutcome_congr sources rfl rfl rfl rfl
  exact absurd (by rw [sameName]) other

/-! ## Changes of the previous API -/

theorem sameBut_classKind (sources : Sources) (package : String) (found : Package)
    (was : Located ClassDecl) (kind : ClassKind) :
    SameBut (.cls package was.item.name) ((classVisits package found was).map (Visit.block sources))
      ((classVisits package found { was with item := was.item.withKind kind }).map
        (Visit.block sources)) := by
  simp only [classVisits, ClassDecl.withKind]
  cases found.classes.get? was.item.name with
  | none => exact .cons ⟨rfl, fun other => absurd rfl other⟩ .nil
  | some now =>
      refine sameBut_keptVisits rfl rfl (fun other => absurd rfl other) fun member _ =>
        memberOutcome_congr sources rfl rfl rfl rfl

theorem sameBut_packageKind (sources : Sources) (current : Api) {package : Located Package}
    {name : String} {was : Located ClassDecl}
    (classFound : package.item.classes.get? name = some was) (kind : ClassKind) :
    SameBut (.cls package.item.name was.item.name)
      ((packageVisits current package).map (Visit.block sources))
      ((packageVisits current { package with
        item := package.item.adjustClass name fun cls => cls.withKind kind }).map
          (Visit.block sources)) := by
  simp only [packageVisits, Package.adjustClass]
  cases current.packages.get? package.item.name with
  | none =>
      refine .cons ⟨rfl, fun _ => ?_⟩ .nil
      simp only [Visit.block, Visit.findings, OrderedMap.isEmpty_adjust]
  | some found =>
      simp only [List.map_flatMap, OrderedMap.flatMap_values_adjust]
      rw [OrderedMap.values, List.flatMap_map]
      apply SameBut.flatMap
      intro entry stored
      by_cases same : entry.1 = name
      · have here : package.item.classes.get? name = some entry.2 := by
          rw [← same]
          exact (package.item.classes.get?_eq_some_iff _ _).mpr stored
        obtain rfl : was = entry.2 := Option.some.inj (classFound.symm.trans here)
        rw [if_pos same]
        exact sameBut_classKind sources _ found.item entry.2 kind
      · rw [if_neg same]
        exact SameBut.refl _ _

/-- A class of another kind in the previous API: only the block of the class itself differs. -/
theorem sameBut_previousKind {previous : Api} (current : Api) {packageKey classKey : String}
    {package : Located Package} {was : Located ClassDecl}
    (packageFound : previous.packages.get? packageKey = some package)
    (classFound : package.item.classes.get? classKey = some was) (kind : ClassKind) :
    SameBut (.cls package.item.name was.item.name) (blocks previous current)
      (blocks (previous.withKind packageKey classKey kind) current) := by
  rw [blocks, blocks, visits, visits, List.map_flatMap, List.map_flatMap, Api.withKind,
    Api.adjustClass]
  simp only [OrderedMap.flatMap_values_adjust]
  rw [OrderedMap.values, List.flatMap_map]
  apply SameBut.flatMap
  intro entry stored
  by_cases same : entry.1 = packageKey
  · have here : previous.packages.get? packageKey = some entry.2 := by
      rw [← same]
      exact (previous.packages.get?_eq_some_iff _ _).mpr stored
    obtain rfl : package = entry.2 := Option.some.inj (packageFound.symm.trans here)
    rw [if_pos same]
    exact sameBut_packageKind _ current classFound kind
  · rw [if_neg same]
    exact SameBut.refl _ _

/-! ## One run of a report -/

/-- Both comparisons succeed, and their reports are the same but for one run of findings: `found` in
the one and `found'` in the other.  These are all that either says about the subject. -/
def DifferAt (subject : Subject) (found found' : List Finding)
    (previous current previous' current' : Api) : Prop :=
  ∃ front back : List (Subject × Finding),
    (∀ entry ∈ front ++ back, entry.1 ≠ subject) ∧
    attributed previous current =
      front ++ found.map (fun finding => (subject, finding)) ++ back ∧
    attributed previous' current' =
      front ++ found'.map (fun finding => (subject, finding)) ++ back ∧
    previous.compare current = .ok (.ofFindings previous.source current.source
      ((attributed previous current).map Prod.snd)) ∧
    previous'.compare current' = .ok (.ofFindings previous'.source current'.source
      ((attributed previous' current').map Prod.snd))

/-- Both comparisons succeed, and their reports are the same block by block, but for the blocks
about the subject. -/
structure SameElsewhere (subject : Subject) (previous current previous' current' : Api) : Prop where
  sameBut : SameBut subject (blocks previous current) (blocks previous' current')
  report : previous.compare current = .ok (.ofFindings previous.source current.source
    ((blocks previous current).flatMap Prod.snd))
  report' : previous'.compare current' = .ok (.ofFindings previous'.source current'.source
    ((blocks previous' current').flatMap Prod.snd))

theorem compare_blocks {previous current : Api} (modes : previous.nullMode = current.nullMode) :
    previous.compare current = .ok (.ofFindings previous.source current.source
      ((blocks previous current).flatMap Prod.snd)) := by
  rw [Api.compare_eq_ok_iff, findings_visits, blocks, List.flatMap_map]
  exact ⟨modes, rfl⟩

theorem compare_attributed {previous current : Api} (modes : previous.nullMode = current.nullMode) :
    previous.compare current = .ok (.ofFindings previous.source current.source
      ((attributed previous current).map Prod.snd)) := by
  rw [attributed_findings, Api.compare_eq_ok_iff]
  exact ⟨modes, rfl⟩

theorem labelled_fresh {subject : Subject} {found : List (Subject × List Finding)}
    (fresh : subject ∉ found.map Prod.fst) : ∀ entry ∈ labelled found, entry.1 ≠ subject := by
  intro entry member same
  obtain ⟨block, stored, inBlock⟩ := List.mem_flatMap.mp member
  obtain ⟨finding, _, rfl⟩ := List.mem_map.mp inBlock
  exact fresh (same ▸ List.mem_map_of_mem stored)

section Runs

variable {subject : Subject} {previous current previous' current' : Api}

/-- Blocks that agree but for one: the reports differ at that block. -/
theorem differAt_of_sameBut (apart : previous.Apart)
    (modes : previous.nullMode = current.nullMode) (modes' : previous'.nullMode = current'.nullMode)
    (same : SameBut subject (blocks previous current) (blocks previous' current'))
    {found found' : List Finding} (here : (subject, found) ∈ blocks previous current)
    (there : (subject, found') ∈ blocks previous' current') :
    DifferAt subject found found' previous current previous' current' := by
  have distinct := nodup_subjects current apart
  obtain ⟨front, back, whole⟩ := List.append_of_mem here
  rw [whole, List.map_append, List.map_cons, List.nodup_append, List.nodup_cons] at distinct
  obtain ⟨_, ⟨after, _⟩, disjoint⟩ := distinct
  have before : subject ∉ front.map Prod.fst := fun member =>
    disjoint _ member _ List.mem_cons_self rfl
  rw [whole] at same
  obtain ⟨found'', whole'⟩ := same.around before after
  have only : found' = found'' := by
    rw [whole'] at there
    rcases List.mem_append.mp there with inFront | inBack
    · exact absurd (List.mem_map_of_mem (f := Prod.fst) inFront) before
    · rcases List.mem_cons.mp inBack with same | inBack
      · exact (Prod.mk.inj same).2
      · exact absurd (List.mem_map_of_mem (f := Prod.fst) inBack) after
  refine ⟨labelled front, labelled back, ?_, ?_, ?_, compare_attributed modes,
    compare_attributed modes'⟩
  · intro entry member
    rcases List.mem_append.mp member with inFront | inBack
    · exact labelled_fresh before entry inFront
    · exact labelled_fresh after entry inBack
  · rw [attributed_blocks, whole, labelled, List.flatMap_append, List.flatMap_cons,
      ← List.append_assoc]
    rfl
  · rw [attributed_blocks, whole', only, labelled, List.flatMap_append, List.flatMap_cons,
      ← List.append_assoc]
    rfl

/-- Blocks that agree but for a subject which is not visited: the reports agree. -/
theorem differAt_of_fresh (modes : previous.nullMode = current.nullMode)
    (modes' : previous'.nullMode = current'.nullMode)
    (same : SameBut subject (blocks previous current) (blocks previous' current'))
    (fresh : subject ∉ (blocks previous current).map Prod.fst) :
    DifferAt subject [] [] previous current previous' current' := by
  have whole := same.eq_of_fresh fresh
  refine ⟨attributed previous current, [], ?_, by simp, ?_, compare_attributed modes,
    compare_attributed modes'⟩
  · rw [attributed_blocks, List.append_nil]
    exact labelled_fresh fresh
  · rw [attributed_blocks previous', ← whole, attributed_blocks]
    simp

end Runs

/-- What is found about a class itself that both APIs have: that its kind changed, or else what
changed in its shape. -/
def classLevel (file : String) (was now : Located ClassDecl) : List Finding :=
  let spot : Spot := { file, line := now.line, target := now.item.qualifiedName }
  if was.item.kind = now.item.kind then shapeFindings spot was.item now.item
  else
    [spot.finding .changedClass
      ("Class " ++ now.item.qualifiedName ++ " changed class/interface declaration")]

theorem mem_blocks_keptClass {previous current : Api} {package : Located Package}
    {was now : Located ClassDecl} (packageStored : package ∈ previous.packages.values)
    (stored : was ∈ package.item.classes.values)
    (kept : current.classIn? package.item.name was.item.name = some now) :
    (.cls package.item.name was.item.name, classLevel current.source was now) ∈
      blocks previous current := by
  obtain ⟨found, packageFound, classFound⟩ := Option.bind_eq_some_iff.mp kept
  have visited := mem_visits_iff.mpr
    (Visit.Of.keptClass packageStored packageFound stored classFound)
  exact List.mem_map.mpr ⟨_, visited, rfl⟩

theorem Api.classIn?_withKind {api : Api} {package name : String} {cls : Located ClassDecl}
    (found : api.classIn? package name = some cls) (kind : ClassKind) :
    (api.withKind package name kind).classIn? package name =
      some { cls with item := cls.item.withKind kind } := by
  obtain ⟨holder, packageFound, classFound⟩ := Option.bind_eq_some_iff.mp found
  simp only [Api.classIn?, Api.withKind, Api.adjustClass, OrderedMap.get?_adjust_self, packageFound,
    Option.map_some, Option.bind_some, Package.adjustClass, classFound]

/-- A class of another kind is stored in place of the one that was there. -/
theorem stored_withKind {api : Api} {packageKey classKey : String} {package : Located Package}
    {cls : Located ClassDecl} (packageFound : api.packages.get? packageKey = some package)
    (classFound : package.item.classes.get? classKey = some cls) (kind : ClassKind) :
    { package with item := package.item.adjustClass classKey fun cls => cls.withKind kind } ∈
        (api.withKind packageKey classKey kind).packages.values ∧
      { cls with item := cls.item.withKind kind } ∈
        (package.item.adjustClass classKey fun cls => cls.withKind kind).classes.values := by
  have packageThere : (api.withKind packageKey classKey kind).packages.get? packageKey = some
      { package with item := package.item.adjustClass classKey fun cls => cls.withKind kind } := by
    simp only [Api.withKind, Api.adjustClass, OrderedMap.get?_adjust_self, packageFound,
      Option.map_some]
  have classThere : (package.item.adjustClass classKey fun cls => cls.withKind kind).classes.get?
      classKey = some { cls with item := cls.item.withKind kind } := by
    simp only [Package.adjustClass, OrderedMap.get?_adjust_self, classFound, Option.map_some]
  exact ⟨OrderedMap.mem_values_of_get? packageThere, OrderedMap.mem_values_of_get? classThere⟩

/-- Another declaration of one member of the current API changes only blocks about that member, and
another kind of a class in either API only blocks about the class itself.  If the previous API tells
its things apart, that is one run of the report. -/
theorem compare_local (previous current : Api) (modes : previous.nullMode = current.nullMode) :
    (∀ package name key declaration,
      SameElsewhere (.member package name key) previous current
        previous (current.withMember package name key declaration) ∧
      (previous.Apart → ∃ found found',
        DifferAt (.member package name key) found found' previous current
          previous (current.withMember package name key declaration))) ∧
    ∀ packageKey classKey package was now,
      previous.packages.get? packageKey = some package →
      package.item.classes.get? classKey = some was →
      current.classIn? package.item.name was.item.name = some now → ∀ kind,
      (SameElsewhere (.cls package.item.name was.item.name) previous current
          previous (current.withKind package.item.name was.item.name kind) ∧
        (previous.Apart →
          DifferAt (.cls package.item.name was.item.name) (classLevel current.source was now)
            (classLevel current.source was { now with item := now.item.withKind kind })
            previous current previous
            (current.withKind package.item.name was.item.name kind))) ∧
      SameElsewhere (.cls package.item.name was.item.name) previous current
        (previous.withKind packageKey classKey kind) current ∧
      (previous.Apart →
        DifferAt (.cls package.item.name was.item.name) (classLevel current.source was now)
          (classLevel current.source { was with item := was.item.withKind kind } now)
          previous current (previous.withKind packageKey classKey kind) current) := by
  constructor
  · intro package name key declaration
    have same := sameBut_withMember previous current package name key declaration
    have modes' : previous.nullMode =
        (current.withMember package name key declaration).nullMode := modes
    refine ⟨⟨same, compare_blocks modes, compare_blocks modes'⟩, fun apart => ?_⟩
    by_cases visited : Subject.member package name key ∈ (blocks previous current).map Prod.fst
    · obtain ⟨⟨_, found⟩, here, rfl⟩ := List.mem_map.mp visited
      obtain ⟨found', there⟩ := same.exists_found here
      exact ⟨found, found', differAt_of_sameBut apart modes modes' same here there⟩
    · exact ⟨[], [], differAt_of_fresh modes modes' same visited⟩
  · intro packageKey classKey package was now packageFound classFound kept kind
    have packageStored := OrderedMap.mem_values_of_get? packageFound
    have classStored := OrderedMap.mem_values_of_get? classFound
    have here := mem_blocks_keptClass packageStored classStored kept
    constructor
    · have same := sameBut_currentKind previous current package.item.name was.item.name kind
      have modes' : previous.nullMode =
          (current.withKind package.item.name was.item.name kind).nullMode := modes
      refine ⟨⟨same, compare_blocks modes, compare_blocks modes'⟩, fun apart => ?_⟩
      have there := mem_blocks_keptClass packageStored classStored
        (Api.classIn?_withKind kept kind)
      exact differAt_of_sameBut apart modes modes' same here there
    · have same := sameBut_previousKind current packageFound classFound kind
      have modes' : (previous.withKind packageKey classKey kind).nullMode = current.nullMode :=
        modes
      refine ⟨⟨same, compare_blocks modes, compare_blocks modes'⟩, fun apart => ?_⟩
      obtain ⟨packageStored', classStored'⟩ := stored_withKind packageFound classFound kind
      exact differAt_of_sameBut apart modes modes' same here
        (mem_blocks_keptClass packageStored' classStored' kept)

/-- Two packages, with a class of two fields each; the second one is stored under `q`. -/
def twoPackages (second : String) : Api :=
  visitSample "old.txt" 1 [("p", "p"), ("q", second)] .classKind
    [scopedField .publicScope "x", scopedField .publicScope "y"]

/-- The same, without the second fields. -/
def thinPackages : Api :=
  visitSample "new.txt" 1 [("p", "p"), ("q", "q")] .classKind [scopedField .publicScope "x"]

def hiddenField : Located Member := { line := 3, item := scopedField .packageScope "x" }

theorem compare_local_twoPackages :
    (twoPackages "q").Apart ∧
    (attributed (twoPackages "q") thinPackages).map (fun entry => entry.2.code) = [10, 10] ∧
    (attributed (twoPackages "q") (thinPackages.withMember "p" "C" (.field "x") hiddenField)).map
      (fun entry => entry.2.code) = [19, 10, 10] ∧
    (∃ found found', DifferAt (.member "p" "C" (.field "x")) found found'
      (twoPackages "q") thinPackages
      (twoPackages "q") (thinPackages.withMember "p" "C" (.field "x") hiddenField)) ∧
    ∃ found', found'.map Finding.code = [23] ∧
      DifferAt (.cls "p" "C") [] found' (twoPackages "q") thinPackages
        ((twoPackages "q").withKind "p" "C" .enumKind) thinPackages := by
  have apart : (twoPackages "q").Apart := by decide
  obtain ⟨members, kinds⟩ := compare_local (twoPackages "q") thinPackages rfl
  exact ⟨apart, by decide, by decide, (members "p" "C" (.field "x") hiddenField).2 apart, _,
    by decide, (kinds "p" "C" _ _ _ rfl rfl rfl .enumKind).2.2 apart⟩

/-! ## Things of one name -/

/-- What is found about the subject of a difference stands in one run. -/
theorem DifferAt.one_run {subject : Subject} {found found' : List Finding}
    {previous current previous' current' : Api}
    (differ : DifferAt subject found found' previous current previous' current') :
    subject ∉ (((attributed previous' current').map Prod.fst).dropWhile (· ≠ subject)).dropWhile
      (· = subject) := by
  obtain ⟨front, back, others, _, whole, _⟩ := differ
  have before : ∀ name ∈ front.map Prod.fst, decide (name ≠ subject) = true := by
    intro name member
    obtain ⟨entry, stored, rfl⟩ := List.mem_map.mp member
    simpa using others entry (List.mem_append_left _ stored)
  have after : subject ∉ back.map Prod.fst := by
    intro member
    obtain ⟨entry, stored, same⟩ := List.mem_map.mp member
    exact others entry (List.mem_append_right _ stored) same
  rw [whole, List.map_append, List.map_append, List.append_assoc,
    List.dropWhile_append_of_pos before, List.map_map]
  intro member
  apply after
  cases found' with
  | nil =>
      exact ((List.dropWhile_sublist _).trans (List.dropWhile_sublist _)).subset member
  | cons finding found' =>
      have run : ∀ name ∈ (finding :: found').map fun _ => subject,
          decide (name = subject) = true := by
        intro name listed
        obtain ⟨_, _, rfl⟩ := List.mem_map.mp listed
        exact decide_eq_true rfl
      have starts : List.dropWhile (fun name => decide (name ≠ subject))
          ((finding :: found').map (fun _ => subject) ++ back.map Prod.fst) =
            (finding :: found').map (fun _ => subject) ++ back.map Prod.fst :=
        List.dropWhile_cons_of_neg (by simp)
      simp only [Function.comp_def, starts, List.dropWhile_append_of_pos run] at member
      exact (List.dropWhile_sublist _).subset member

/-- Two packages of one name have a class of one name each.  Another declaration of a member of
the current API shows in two places of the report, with something else between them. -/
theorem compare_not_local :
    (attributed (twoPackages "p") thinPackages).map (fun entry => entry.2.code) = [10, 10] ∧
    (attributed (twoPackages "p") (thinPackages.withMember "p" "C" (.field "x") hiddenField)).map
      (fun entry => entry.2.code) = [19, 10, 19, 10] ∧
    ¬∃ found found', DifferAt (.member "p" "C" (.field "x")) found found'
      (twoPackages "p") thinPackages
      (twoPackages "p") (thinPackages.withMember "p" "C" (.field "x") hiddenField) := by
  refine ⟨by decide, by decide, ?_⟩
  rintro ⟨found, found', differ⟩
  apply differ.one_run
  decide

end Compare

end ApiCompat
