import ApiCompat.Proofs.Compare.Matching

/-!
# Additions to an API

What the current API has and the previous one has not is an addition: packages,
classes, members and interfaces, put in anywhere (`Api.GrowsTo`).  A comparison
looks up only what the previous API has, and a lookup passes over additions, so
additions change nothing in a report, whatever else is in it
(`compare_additions`).
-/

set_option autoImplicit false

namespace ApiCompat

/-- Further elements put in anywhere in a list.  Those that were there stay in order and are
`kept`, and those that are put in are `added`. -/
inductive Grown {α : Type} (kept : α → α → Prop) (added : α → Prop) : List α → List α → Prop
  | nil : Grown kept added [] []
  | keep {before after : α} {rest rest' : List α} (same : kept before after)
      (later : Grown kept added rest rest') : Grown kept added (before :: rest) (after :: rest')
  | add {extra : α} {rest rest' : List α} (fresh : added extra)
      (later : Grown kept added rest rest') : Grown kept added rest (extra :: rest')

/-- Further entries put in anywhere in a map, under keys that are `added`; what is kept stays at
its line. -/
def GrownMap {κ α : Type} (kept : κ → α → α → Prop) (added : κ → Prop)
    (before after : OrderedMap κ (Located α)) : Prop :=
  Grown (fun entry entry' => entry'.1 = entry.1 ∧ entry'.2.line = entry.2.line ∧
      kept entry.1 entry.2.item entry'.2.item)
    (fun entry => added entry.1) before.entries after.entries

/-- Interfaces and members put in that the previous version `was`, if there is one, has not. -/
inductive ClassDecl.GrowsTo (before : ClassDecl) (was : Option (Located ClassDecl)) :
    ClassDecl → Prop
  | intro (interfaces : OrderedSet TypeRef) (members : OrderedMap MemberKey (Located Member))
      (moreInterfaces : Grown Eq (fun type => ∀ cls ∈ was, type.erasure ∉ cls.item.interfaceNames)
        before.interfaces.toList interfaces.toList)
      (moreMembers : GrownMap (fun _ => Eq) (fun key => ∀ cls ∈ was, key ∉ cls.item.members.keys)
        before.members members) :
      GrowsTo before was { before with interfaces, members }

/-- Classes put in that the previous version of the package, if there is one, has not; the other
classes may grow. -/
inductive Package.GrowsTo (before : Package) (was : Option (Located Package)) : Package → Prop
  | intro (classes : OrderedMap String (Located ClassDecl))
      (moreClasses : GrownMap
        (fun name cls cls' => cls.GrowsTo (was.bind fun holder => holder.item.classes.get? name)
          cls')
        (fun name => ∀ holder ∈ was, name ∉ holder.item.classes.keys) before.classes classes) :
      GrowsTo before was { before with classes }

/-- Packages put in that the previous API has not; the other packages may grow. -/
inductive Api.GrowsTo (before previous : Api) : Api → Prop
  | intro (packages : OrderedMap String (Located Package))
      (morePackages : GrownMap
        (fun name package package' => package.GrowsTo (previous.packages.get? name) package')
        (fun name => name ∉ previous.packages.keys) before.packages packages) :
      GrowsTo before previous { before with packages }

/-! ## Looking up what was there -/

theorem Grown.find?_rel {κ α : Type} [DecidableEq κ]
    {kept : κ × Located α → κ × Located α → Prop} {added : κ × Located α → Prop}
    {related : Located α → Located α → Prop} {before after : List (κ × Located α)}
    (grown : Grown kept added before after) {key : κ}
    (others : ∀ entry, added entry → entry.1 ≠ key)
    (sameKey : ∀ entry entry', kept entry entry' → entry'.1 = entry.1)
    (relates : ∀ entry entry', kept entry entry' → entry.1 = key → related entry.2 entry'.2) :
    Option.Rel related ((before.find? fun entry => decide (entry.1 = key)).map Prod.snd)
      ((after.find? fun entry => decide (entry.1 = key)).map Prod.snd) := by
  induction grown with
  | nil => exact .none
  | @keep entry entry' rest rest' same _ ih =>
      have keys := sameKey entry entry' same
      by_cases found : entry.1 = key
      · have found' : entry'.1 = key := keys.trans found
        rw [List.find?_cons_of_pos (by simpa using found),
          List.find?_cons_of_pos (by simpa using found')]
        exact .some (relates entry entry' same found)
      · have missed : ¬entry'.1 = key := fun found' => found (keys.symm.trans found')
        rw [List.find?_cons_of_neg (by simpa using found),
          List.find?_cons_of_neg (by simpa using missed)]
        exact ih
  | @add extra rest rest' fresh _ ih =>
      have missed : ¬extra.1 = key := others extra fresh
      rw [List.find?_cons_of_neg (by simpa using missed)]
      exact ih

/-- A key under which nothing is added finds what it found before, as far as that is kept. -/
theorem GrownMap.get?_rel {κ α : Type} [DecidableEq κ] {kept : κ → α → α → Prop}
    {added : κ → Prop} {before after : OrderedMap κ (Located α)}
    (grown : GrownMap kept added before after) {key : κ} (present : ¬added key) :
    Option.Rel (fun found found' => found'.line = found.line ∧ kept key found.item found'.item)
      (before.get? key) (after.get? key) := by
  apply Grown.find?_rel grown
  · intro entry fresh same
    exact present (same ▸ fresh)
  · intro entry entry' same
    exact same.1
  · intro entry entry' same found
    exact ⟨same.2.1, found ▸ same.2.2⟩

theorem GrownMap.get?_eq {κ α : Type} [DecidableEq κ] {added : κ → Prop}
    {before after : OrderedMap κ (Located α)} (grown : GrownMap (fun _ => Eq) added before after)
    {key : κ} (present : ¬added key) : after.get? key = before.get? key := by
  apply Eq.symm
  apply eq_of_rel
  apply rel_imp (grown.get?_rel present)
  rintro ⟨line, item⟩ ⟨line', item'⟩ ⟨sameLine, sameItem⟩
  simp only at sameLine sameItem
  rw [sameLine, sameItem]

/-- A name that nothing added has is among the names as before. -/
theorem Grown.mem_map_iff {α β : Type} {added : α → Prop} {name : α → β} {before after : List α}
    (grown : Grown Eq added before after) {wanted : β}
    (others : ∀ extra, added extra → name extra ≠ wanted) :
    wanted ∈ after.map name ↔ wanted ∈ before.map name := by
  induction grown with
  | nil => exact Iff.rfl
  | keep same _ ih =>
      subst same
      rw [List.map_cons, List.map_cons, List.mem_cons, List.mem_cons, ih]
  | @add extra rest rest' fresh _ ih =>
      have other : wanted ≠ name extra := fun same => others extra fresh same.symm
      rw [List.map_cons, List.mem_cons, ih]
      simp [other]

namespace Compare

/-! ## Findings -/

theorem interfaceFindings_grown (spot : Spot) (was : Located ClassDecl) (before : ClassDecl)
    (interfaces : OrderedSet TypeRef) (members : OrderedMap MemberKey (Located Member))
    (grown : Grown Eq (fun type => ∀ cls ∈ some was, type.erasure ∉ cls.item.interfaceNames)
      before.interfaces.toList interfaces.toList) :
    interfaceFindings spot was.item { before with interfaces, members } =
      interfaceFindings spot was.item before := by
  apply List.flatMap_congr
  intro interface listed
  have others : ∀ type : TypeRef, (∀ cls ∈ some was, type.erasure ∉ cls.item.interfaceNames) →
      type.erasure ≠ interface := by
    intro type fresh same
    exact fresh was rfl (same ▸ listed)
  have named := grown.mem_map_iff others
  have contained : ({ before with interfaces, members } : ClassDecl).interfaceNames.contains
      interface = before.interfaceNames.contains interface := by
    rw [Bool.eq_iff_iff, List.contains_iff_mem, List.contains_iff_mem]
    exact named
  rw [contained]

theorem classFindings_grown (sources : Sources) {was before after : Located ClassDecl}
    (line : after.line = before.line) (grown : before.item.GrowsTo (some was) after.item)
    (keyed : was.item.Keyed) :
    classFindings sources was after = classFindings sources was before := by
  obtain ⟨line', item'⟩ := after
  obtain rfl : line' = before.line := line
  obtain ⟨interfaces, members, moreInterfaces, moreMembers⟩ := grown
  have declaration : ∀ spot : Spot,
      declarationFindings spot was.item { before.item with interfaces, members } =
        declarationFindings spot was.item before.item := by
    intro spot
    by_cases kind : was.item.kind = before.item.kind
    · rw [declarationFindings, declarationFindings, if_pos kind, if_pos kind, shapeFindings,
        shapeFindings, interfaceFindings_grown spot was before.item interfaces members
          moreInterfaces]
      rfl
    · rw [declarationFindings, declarationFindings, if_neg kind, if_neg kind]
  rw [classFindings, classFindings, declaration]
  congr 1
  apply List.flatMap_congr
  intro member stored
  have present : ¬∀ cls ∈ some was, member.item.key ∉ cls.item.members.keys := by
    intro fresh
    exact fresh was rfl (OrderedMap.mem_keys_of_get? (keyed.get?_key stored))
  rw [memberOutcome, memberOutcome, moreMembers.get?_eq present]
  rfl

theorem classOutcome_grown (sources : Sources) {was : Located Package} {before after : Package}
    (grown : before.GrowsTo (some was) after) (keyed : was.item.Keyed) {cls : Located ClassDecl}
    (stored : cls ∈ was.item.classes.values) :
    classOutcome sources after cls = classOutcome sources before cls := by
  obtain ⟨classes, moreClasses⟩ := grown
  have known := keyed.get?_name stored
  have present : ¬∀ holder ∈ some was, cls.item.name ∉ holder.item.classes.keys := by
    intro fresh
    exact fresh was rfl (OrderedMap.mem_keys_of_get? known)
  have related := moreClasses.get?_rel present
  cases lookup : before.classes.get? cls.item.name with
  | none =>
      have missing := none_of_rel related lookup
      simp only [classOutcome, lookup, missing]
  | some found =>
      obtain ⟨found', lookup', line, grows⟩ := (found_of_rel related).1 found lookup
      have previousClass : ((some was).bind fun holder =>
          holder.item.classes.get? cls.item.name) = some cls := known
      rw [previousClass] at grows
      have classKeyed := (keyed.name_of_get? known).2
      simp only [classOutcome, lookup, lookup', classFindings_grown sources line grows classKeyed]

theorem packageOutcome_grown (sources : Sources) {previous current grown : Api}
    (additions : current.GrowsTo previous grown) (keyed : previous.Keyed)
    {was : Located Package} (stored : was ∈ previous.packages.values) :
    packageOutcome sources grown was = packageOutcome sources current was := by
  obtain ⟨packages, morePackages⟩ := additions
  have known := keyed.get?_name stored
  have present : ¬was.item.name ∉ previous.packages.keys := by
    intro fresh
    exact fresh (OrderedMap.mem_keys_of_get? known)
  have related := morePackages.get?_rel present
  cases lookup : current.packages.get? was.item.name with
  | none =>
      have missing := none_of_rel related lookup
      simp only [packageOutcome, lookup, missing]
  | some found =>
      obtain ⟨found', lookup', _, grows⟩ := (found_of_rel related).1 found lookup
      rw [known] at grows
      have packageKeyed := (keyed.name_of_get? known).2
      simp only [packageOutcome, lookup, lookup']
      apply List.flatMap_congr
      intro cls classStored
      exact classOutcome_grown sources grows packageKeyed classStored

/-- Additions to the current API leave the report as it is, finding by finding. -/
theorem compare_additions (previous current grown : Api) (keyed : previous.Keyed)
    (modes : previous.nullMode = current.nullMode) (additions : current.GrowsTo previous grown) :
    ∃ report, previous.compare current = .ok report ∧ previous.compare grown = .ok report := by
  have same : findings previous grown = findings previous current := by
    have source : grown.source = current.source := by
      obtain ⟨_, _⟩ := additions
      rfl
    rw [findings, findings, source]
    apply List.flatMap_congr
    intro was stored
    exact packageOutcome_grown _ additions keyed stored
  refine ⟨_, (Api.compare_eq_ok_iff _ _ _).mpr ⟨modes, rfl⟩, ?_⟩
  obtain ⟨packages, morePackages⟩ := additions
  rw [Api.compare_eq_ok_iff]
  exact ⟨modes, by rw [same]⟩

def additionSample (packages classes interfaces : List String) (members : List Member) : Api where
  source := "api.txt"
  nullMode := .legacy
  packages := .ofList (packages.map fun package => (package, {
    line := 1
    item := {
      name := package
      classes := .ofList (classes.map fun name => (name, {
        line := 2
        item := {
          name
          qualifiedName := qualify package name
          kind := .classKind
          interfaces := .ofList (interfaces.map fun name => { name })
          members := .ofList (members.map fun item => (item.key, { line := 3, item })) } })) } }))

def voidMethod (visibility : Visibility) (name : String) : Member :=
  .method { name, modifiers := { visibility }, returnType := { name := "void" } }

def releasedSample : Api :=
  additionSample ["p"] ["C", "D"] ["E"]
    [voidMethod .publicScope "f", .field { name := "x", type := { name := "int" } }]

def reducedSample : Api := additionSample ["p"] ["C"] [] [voidMethod .packageScope "f"]

def grownSample : Api :=
  additionSample ["q", "p"] ["B", "C"] ["A"]
    [voidMethod .packageScope "g", voidMethod .packageScope "f"]

theorem reducedSample_growsTo : reducedSample.GrowsTo releasedSample grownSample := by
  -- The package `q` is added; in `p` the class `B`; in `C` the interface `A` and the method `g`.
  apply Api.GrowsTo.intro
  apply Grown.add (by decide)
  refine .keep ⟨rfl, rfl, ?_⟩ .nil
  apply Package.GrowsTo.intro
  apply Grown.add (by decide)
  refine .keep ⟨rfl, rfl, ?_⟩ .nil
  apply ClassDecl.GrowsTo.intro
  · exact .add (by decide) .nil
  · exact .add (by decide) (.keep ⟨rfl, rfl, rfl⟩ .nil)

/-- Something of each sort is added to an API from which something of each sort was removed. -/
theorem compare_additions_grownSample :
    ∃ report, releasedSample.compare reducedSample = .ok report ∧
      report.codes = [11, 19, 10, 8] ∧ releasedSample.compare grownSample = .ok report := by
  obtain ⟨report, run, run'⟩ := compare_additions releasedSample reducedSample grownSample
    (by decide) rfl reducedSample_growsTo
  have same := ((Api.compare_eq_ok_iff _ _ _).mp run).2
  exact ⟨report, run, by rw [same]; decide, run'⟩

end Compare

end ApiCompat
