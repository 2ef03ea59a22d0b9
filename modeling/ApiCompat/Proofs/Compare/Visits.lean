import ApiCompat.Proofs.Compare.Removals

/-!
# The visits of a comparison

A comparison visits what the previous API declares, one thing after the other:
packages, classes and members that are missing now, and those that are not,
each with what the current API has in its place.  The report lists the findings
of each visit in turn (`findings_visits`).  What is found at a visit depends on
what is visited and on nothing else, but that a member is compared under the
qualified name of its class, and beside whether that is final
(`memberFindings_congr`).
-/

set_option autoImplicit false

namespace ApiCompat.Compare

/-- Something of the previous API, and what the current one has in its place. -/
inductive Visit where
  | lostPackage (was : Located Package)
  | lostClass (package : String) (was : Located ClassDecl)
  | keptClass (package : String) (was now : Located ClassDecl)
  | lostMember (package : String) (cls : ClassDecl) (was : Located Member)
  /-- A member of `cls` and the one in its place in `found`. -/
  | keptMember (package : String) (cls found : ClassDecl) (was now : Located Member)

/-! ## All visits -/

def memberVisit (package : String) (cls found : ClassDecl) (was : Located Member) : Visit :=
  match found.members.get? was.item.key with
  | some now => .keptMember package cls found was now
  | none => .lostMember package cls was

/-- The visits to a class that the current API has, and to its members. -/
def keptVisits (package : String) (was now : Located ClassDecl) : List Visit :=
  .keptClass package was now ::
    was.item.members.values.map (memberVisit package was.item now.item)

def classVisits (package : String) (found : Package) (was : Located ClassDecl) : List Visit :=
  match found.classes.get? was.item.name with
  | some now => keptVisits package was now
  | none => [.lostClass package was]

def packageVisits (current : Api) (was : Located Package) : List Visit :=
  match current.packages.get? was.item.name with
  | some found => was.item.classes.values.flatMap (classVisits was.item.name found.item)
  | none => [.lostPackage was]

def visits (previous current : Api) : List Visit :=
  previous.packages.values.flatMap (packageVisits current)

/-- What there is to visit: each thing of the previous API, with the one that the current API has
under the same name or key, if everything around it is there as well. -/
inductive Visit.Of (previous current : Api) : Visit → Prop
  | lostPackage {was : Located Package} (stored : was ∈ previous.packages.values)
      (missing : current.packages.get? was.item.name = none) :
      Of previous current (.lostPackage was)
  | lostClass {package found : Located Package} {was : Located ClassDecl}
      (packageStored : package ∈ previous.packages.values)
      (packageFound : current.packages.get? package.item.name = some found)
      (stored : was ∈ package.item.classes.values)
      (missing : found.item.classes.get? was.item.name = none) :
      Of previous current (.lostClass package.item.name was)
  | keptClass {package found : Located Package} {was now : Located ClassDecl}
      (packageStored : package ∈ previous.packages.values)
      (packageFound : current.packages.get? package.item.name = some found)
      (stored : was ∈ package.item.classes.values)
      (kept : found.item.classes.get? was.item.name = some now) :
      Of previous current (.keptClass package.item.name was now)
  | lostMember {package : String} {cls found : Located ClassDecl} {was : Located Member}
      (classKept : Of previous current (.keptClass package cls found))
      (stored : was ∈ cls.item.members.values)
      (missing : found.item.members.get? was.item.key = none) :
      Of previous current (.lostMember package cls.item was)
  | keptMember {package : String} {cls found : Located ClassDecl} {was now : Located Member}
      (classKept : Of previous current (.keptClass package cls found))
      (stored : was ∈ cls.item.members.values)
      (kept : found.item.members.get? was.item.key = some now) :
      Of previous current (.keptMember package cls.item found.item was now)

theorem of_mem_keptVisits {previous current : Api} {package : String} {was now : Located ClassDecl}
    (classKept : Visit.Of previous current (.keptClass package was now)) {visit : Visit}
    (member : visit ∈ keptVisits package was now) : visit.Of previous current := by
  rcases List.mem_cons.mp member with rfl | inside
  · exact classKept
  · obtain ⟨item, stored, rfl⟩ := List.mem_map.mp inside
    unfold memberVisit
    split
    · next kept => exact .keptMember classKept stored kept
    · next missing => exact .lostMember classKept stored missing

theorem of_mem_visits {previous current : Api} {visit : Visit}
    (member : visit ∈ visits previous current) : visit.Of previous current := by
  obtain ⟨package, packageStored, inPackage⟩ := List.mem_flatMap.mp member
  unfold packageVisits at inPackage
  split at inPackage
  · next found packageFound =>
      obtain ⟨cls, stored, inClass⟩ := List.mem_flatMap.mp inPackage
      unfold classVisits at inClass
      split at inClass
      · next now kept =>
          exact of_mem_keptVisits (.keptClass packageStored packageFound stored kept) inClass
      · next missing =>
          obtain rfl := List.mem_singleton.mp inClass
          exact .lostClass packageStored packageFound stored missing
  · next missing =>
      obtain rfl := List.mem_singleton.mp inPackage
      exact .lostPackage packageStored missing

theorem mem_visits_of_class {previous current : Api} {package found : Located Package}
    {was now : Located ClassDecl} (packageStored : package ∈ previous.packages.values)
    (packageFound : current.packages.get? package.item.name = some found)
    (stored : was ∈ package.item.classes.values)
    (kept : found.item.classes.get? was.item.name = some now) {visit : Visit}
    (member : visit ∈ keptVisits package.item.name was now) : visit ∈ visits previous current := by
  refine List.mem_flatMap.mpr ⟨package, packageStored, ?_⟩
  simp only [packageVisits, packageFound]
  refine List.mem_flatMap.mpr ⟨was, stored, ?_⟩
  simp only [classVisits, kept]
  exact member

/-- A comparison visits what there is to visit, and nothing else. -/
theorem mem_visits_iff {previous current : Api} {visit : Visit} :
    visit ∈ visits previous current ↔ visit.Of previous current := by
  refine ⟨of_mem_visits, fun listed => ?_⟩
  cases listed with
  | @lostPackage was stored missing =>
      refine List.mem_flatMap.mpr ⟨was, stored, ?_⟩
      simp only [packageVisits, missing, List.mem_singleton]
  | @lostClass package found was packageStored packageFound stored missing =>
      refine List.mem_flatMap.mpr ⟨package, packageStored, ?_⟩
      simp only [packageVisits, packageFound]
      refine List.mem_flatMap.mpr ⟨was, stored, ?_⟩
      simp only [classVisits, missing, List.mem_singleton]
  | keptClass packageStored packageFound stored kept =>
      exact mem_visits_of_class packageStored packageFound stored kept List.mem_cons_self
  | @lostMember _ cls now was classKept stored missing =>
      cases classKept with
      | @keptClass package found _ _ packageStored packageFound classStored kept =>
          apply mem_visits_of_class packageStored packageFound classStored kept
          refine List.mem_cons_of_mem _ (List.mem_map.mpr ⟨was, stored, ?_⟩)
          simp only [memberVisit, missing]
  | @keptMember _ cls now was found classKept stored memberKept =>
      cases classKept with
      | @keptClass package found _ _ packageStored packageFound classStored kept =>
          apply mem_visits_of_class packageStored packageFound classStored kept
          refine List.mem_cons_of_mem _ (List.mem_map.mpr ⟨was, stored, ?_⟩)
          simp only [memberVisit, memberKept]

/-! ## What is found -/

namespace Visit

def findings (sources : Sources) : Visit → List Finding
  | lostPackage was =>
      if was.item.classes.isEmpty then []
      else
        [Finding.warning .removedPackage ("Removed package " ++ was.item.name) was.item.name
          { file := sources.previous, line := was.line }]
  | lostClass _ was => [removedClass sources was]
  | keptClass _ was now =>
      declarationFindings
        { file := sources.current, line := now.line, target := now.item.qualifiedName }
        was.item now.item
  | lostMember _ cls was => [removedMember sources.previous cls was]
  | keptMember _ _ found was now => memberFindings sources.current found was now

def subject : Visit → Subject
  | lostPackage was => .package was.item.name
  | lostClass package was => .cls package was.item.name
  | keptClass package was _ => .cls package was.item.name
  | lostMember package cls was => .member package cls.name was.item.key
  | keptMember package cls _ was _ => .member package cls.name was.item.key

def attributed (sources : Sources) (visit : Visit) : List (Subject × Finding) :=
  (visit.findings sources).map fun finding => (visit.subject, finding)

end Visit

theorem memberVisit_subject (package : String) (cls found : ClassDecl) (was : Located Member) :
    (memberVisit package cls found was).subject = .member package cls.name was.item.key := by
  unfold memberVisit
  split <;> rfl

theorem memberVisit_findings (sources : Sources) (package : String) (cls found : ClassDecl)
    (was : Located Member) :
    (memberVisit package cls found was).findings sources =
      memberOutcome sources cls found was := by
  cases lookup : found.members.get? was.item.key <;>
    simp only [memberVisit, memberOutcome, lookup, Visit.findings]

theorem attributedClass_eq (sources : Sources) (package : String) (found : Package)
    (was : Located ClassDecl) :
    attributedClass sources package found was =
      (classVisits package found was).flatMap (Visit.attributed sources) := by
  cases lookup : found.classes.get? was.item.name with
  | none => simp [attributedClass, classVisits, lookup, Visit.attributed, Visit.findings,
      Visit.subject]
  | some now =>
      simp only [attributedClass, classVisits, lookup, keptVisits, List.flatMap_cons,
        List.flatMap_map]
      congr 1
      apply List.flatMap_congr
      intro member _
      rw [attributedMember, Visit.attributed, memberVisit_findings, memberVisit_subject]

theorem attributed_eq (previous current : Api) :
    attributed previous current = (visits previous current).flatMap
      (Visit.attributed { previous := previous.source, current := current.source }) := by
  rw [attributed, visits, List.flatMap_assoc]
  apply List.flatMap_congr
  intro package _
  cases lookup : current.packages.get? package.item.name with
  | none => simp [attributedPackage, packageOutcome, packageVisits, lookup, Visit.attributed,
      Visit.findings, Visit.subject]
  | some found =>
      simp only [attributedPackage, packageVisits, lookup, List.flatMap_assoc]
      exact List.flatMap_congr fun cls _ => attributedClass_eq _ _ _ cls

/-- A report lists what is found at each visit. -/
theorem findings_visits (previous current : Api) :
    findings previous current = (visits previous current).flatMap
      (Visit.findings { previous := previous.source, current := current.source }) := by
  rw [← attributed_findings, attributed_eq, List.map_flatMap]
  apply List.flatMap_congr
  intro visit _
  simp [Visit.attributed, Function.comp_def]

/-- What became of a member depends on what is found under its key. -/
theorem memberOutcome_congr (sources : Sources) {was was' now now' : ClassDecl}
    {member : Located Member} (oldName : was.qualifiedName = was'.qualifiedName)
    (name : now.qualifiedName = now'.qualifiedName)
    (final : now.modifiers.isFinal = now'.modifiers.isFinal)
    (lookup : now.members.get? member.item.key = now'.members.get? member.item.key) :
    memberOutcome sources was now member = memberOutcome sources was' now' member := by
  unfold memberOutcome
  rw [lookup]
  split
  · exact memberFindings_congr _ name final member _
  · rw [removedMember_congr _ oldName]

/-! ## A small API -/

def scopedField (visibility : Visibility) (name : String) : Member :=
  .field { name, modifiers := { visibility }, type := { name := "int" } }

/-- An API whose packages, given with their keys, hold a class each, on lines one after the other;
for closed checks. -/
def visitSample (source : String) (line : Nat) (packages : List (String × String))
    (kind : ClassKind) (members : List Member) : Api where
  source := source
  nullMode := .legacy
  packages := .ofList (packages.map fun (key, name) => (key, {
    line
    item := {
      name
      classes := .ofList [("C", {
        line := line + 1
        item := {
          name := "C"
          qualifiedName := qualify name "C"
          kind
          members := .ofList (members.mapIdx fun index item =>
            (item.key, { line := line + 2 + index, item })) } })] } }))

end ApiCompat.Compare
