import ApiCompat.Proofs.Compare.Matching
import ApiCompat.Proofs.Compare.Rules

/-!
# Removed packages, classes and members

A comparison can be read together with what each finding is about
(`attributed`).  What the current API lacks is then found removed once, at the
highest level at which it is missing, with its name and its line in the previous API,
and nothing inside it is mentioned; no other finding has a code of removal
(`removals_exact`).
-/

set_option autoImplicit false

namespace ApiCompat.Compare

/-- What a finding is about: a package, class or member of the previous API. -/
inductive Subject where
  | package (package : String)
  | cls (package name : String)
  | member (package name : String) (key : MemberKey)
deriving DecidableEq

namespace Subject

def inPackage (package : String) : Subject → Bool
  | .package package' => package' == package
  | .cls package' _ => package' == package
  | .member package' _ _ => package' == package

/-- Whether the subject is the class or a member of it. -/
def inClass (package name : String) : Subject → Bool
  | .package _ => false
  | .cls package' name' => package' == package && name' == name
  | .member package' name' _ => package' == package && name' == name

end Subject

/-! ## Findings with their subjects -/

def attributedMember (sources : Sources) (package : String) (was now : ClassDecl)
    (member : Located Member) : List (Subject × Finding) :=
  (memberOutcome sources was now member).map fun finding =>
    (.member package was.name member.item.key, finding)

def attributedClass (sources : Sources) (package : String) (now : Package)
    (was : Located ClassDecl) : List (Subject × Finding) :=
  match now.classes.get? was.item.name with
  | none => [(.cls package was.item.name, removedClass sources was)]
  | some found =>
      (declarationFindings
          { file := sources.current, line := found.line, target := found.item.qualifiedName }
          was.item found.item).map (fun finding => (.cls package was.item.name, finding)) ++
        was.item.members.values.flatMap (attributedMember sources package was.item found.item)

def attributedPackage (sources : Sources) (current : Api) (was : Located Package) :
    List (Subject × Finding) :=
  match current.packages.get? was.item.name with
  | none =>
      (packageOutcome sources current was).map fun finding => (.package was.item.name, finding)
  | some found =>
      was.item.classes.values.flatMap (attributedClass sources was.item.name found.item)

/-- All findings of a comparison in order, each with its subject. -/
def attributed (previous current : Api) : List (Subject × Finding) :=
  previous.packages.values.flatMap
    (attributedPackage { previous := previous.source, current := current.source } current)

theorem attributedClass_findings (sources : Sources) (package : String) (now : Package)
    (was : Located ClassDecl) :
    (attributedClass sources package now was).map Prod.snd = classOutcome sources now was := by
  cases found : now.classes.get? was.item.name <;>
    simp [attributedClass, classOutcome, classFindings, attributedMember, found, List.map_flatMap,
      Function.comp_def]

theorem attributed_findings (previous current : Api) :
    (attributed previous current).map Prod.snd = findings previous current := by
  rw [attributed, findings, List.map_flatMap]
  refine List.flatMap_congr fun package _ => ?_
  cases found : current.packages.get? package.item.name with
  | none => simp [attributedPackage, found, Function.comp_def]
  | some now =>
      simp only [attributedPackage, packageOutcome, found, List.map_flatMap]
      exact List.flatMap_congr fun cls _ => attributedClass_findings _ _ _ cls

/-! ## What is removed -/

/-- How a missing member is reported. -/
def removalIssue : Member → Issue
  | .constructor _ => .removedMethod
  | .method _ => .removedMethod
  | .field _ => .removedField

/-- The code under which a missing member is reported: 9, or 10 for a field. -/
def removalCode (member : Member) : UInt32 := (removalIssue member).code

/-- Something that the current API lacks, and how it is reported. -/
structure Removal where
  subject : Subject
  code : UInt32
  target : String
  location : Location
deriving DecidableEq

/-- The members that the current version of a class lacks. -/
def removedMembers (file package : String) (was now : ClassDecl) : List Removal :=
  was.members.values.flatMap fun member =>
    match now.members.get? member.item.key with
    | none => [{
        subject := .member package was.name member.item.key
        code := removalCode member.item
        target := memberTarget was.qualifiedName member.item
        location := { file, line := member.line } }]
    | some _ => []

/-- The classes that the current version of a package lacks, and the members that its classes
lack. -/
def removedClasses (file : String) (was now : Package) : List Removal :=
  was.classes.values.flatMap fun cls =>
    match now.classes.get? cls.item.name with
    | none => [{
        subject := .cls was.name cls.item.name
        code := 8
        target := cls.item.qualifiedName
        location := { file, line := cls.line } }]
    | some found => removedMembers file was.name cls.item found.item

/-- Everything that the current API lacks, each at the highest level, in the order of the previous
API. -/
def removals (previous current : Api) : List Removal :=
  previous.packages.values.flatMap fun package =>
    match current.packages.get? package.item.name with
    | none =>
        if package.item.classes.isEmpty then []
        else [{
          subject := .package package.item.name
          code := 7
          target := package.item.name
          location := { file := previous.source, line := package.line } }]
    | some found => removedClasses previous.source package.item found.item

/-- Whether a finding has one of the codes of removal, 7 to 10. -/
def isRemoval (finding : Finding) : Bool := 7 ≤ finding.code && finding.code ≤ 10

/-! ## Other findings have other codes -/

def NoRemoval (found : List Finding) : Prop := ∀ finding ∈ found, isRemoval finding = false

theorem noRemoval_of_reports {spot : Spot} {issues : List Issue} {found : List Finding}
    (reports : spot.Reports issues found)
    (others : ∀ issue ∈ issues, (7 ≤ issue.code && issue.code ≤ 10) = false) :
    NoRemoval found := by
  intro finding member
  obtain ⟨issue, listed, message, rfl⟩ := reports finding member
  exact others issue listed

theorem noRemoval_member (file : String) (cls : ClassDecl) (was now : Located Member) :
    NoRemoval (memberFindings file cls was now) :=
  noRemoval_of_reports (reports_member file cls was now) (by decide)

theorem noRemoval_declaration (spot : Spot) (was now : ClassDecl) :
    NoRemoval (declarationFindings spot was now) :=
  noRemoval_of_reports (reports_declaration spot was now) (by decide)

/-! ## Blocks of a report -/

/-- Of blocks that belong to things of different names, a test that passes only in the block of
one thing keeps what it keeps of that block. -/
theorem filter_flatMap_block {α β κ : Type} {items : List α} {name : α → κ} {block : α → List β}
    {test : β → Bool} (distinct : (items.map name).Nodup) {item : α} (stored : item ∈ items)
    (others : ∀ other ∈ items, name other ≠ name item → (block other).filter test = []) :
    (items.flatMap block).filter test = (block item).filter test := by
  induction items with
  | nil => cases stored
  | cons first rest ih =>
      rw [List.map_cons, List.nodup_cons] at distinct
      obtain ⟨fresh, later⟩ := distinct
      rw [List.flatMap_cons, List.filter_append]
      rcases List.mem_cons.mp stored with rfl | inRest
      · have empty : (rest.flatMap block).filter test = [] := by
          rw [List.filter_flatMap, List.flatMap_eq_nil_iff]
          intro other member
          refine others other (List.mem_cons_of_mem _ member) fun same => ?_
          exact fresh (same ▸ List.mem_map_of_mem member)
        rw [empty, List.append_nil]
      · have differs : name first ≠ name item := fun same =>
          fresh (same ▸ List.mem_map_of_mem inRest)
        rw [others first List.mem_cons_self differs, List.nil_append]
        exact ih later inRest fun other member => others other (List.mem_cons_of_mem _ member)

theorem attributedMember_subject {sources : Sources} {package : String} {was now : ClassDecl}
    {member : Located Member} {entry : Subject × Finding}
    (stored : entry ∈ attributedMember sources package was now member) :
    entry.1 = .member package was.name member.item.key := by
  obtain ⟨_, _, rfl⟩ := List.mem_map.mp stored
  rfl

theorem attributedClass_inClass {sources : Sources} {package : String} {now : Package}
    {was : Located ClassDecl} {entry : Subject × Finding}
    (stored : entry ∈ attributedClass sources package now was) :
    entry.1 = .cls package was.item.name ∨
      ∃ key, entry.1 = .member package was.item.name key := by
  unfold attributedClass at stored
  split at stored
  · obtain rfl := List.mem_singleton.mp stored
    exact .inl rfl
  · rcases List.mem_append.mp stored with declared | inside
    · obtain ⟨_, _, rfl⟩ := List.mem_map.mp declared
      exact .inl rfl
    · obtain ⟨member, _, inMember⟩ := List.mem_flatMap.mp inside
      exact .inr ⟨_, attributedMember_subject inMember⟩

theorem attributedPackage_inPackage {sources : Sources} {current : Api}
    {was : Located Package} {entry : Subject × Finding}
    (stored : entry ∈ attributedPackage sources current was) (package : String) :
    entry.1.inPackage package = (was.item.name == package) := by
  unfold attributedPackage at stored
  split at stored
  · obtain ⟨_, _, rfl⟩ := List.mem_map.mp stored
    rfl
  · obtain ⟨cls, _, inClass⟩ := List.mem_flatMap.mp stored
    rcases attributedClass_inClass inClass with same | ⟨key, same⟩ <;> rw [same] <;> rfl

theorem Subject.inPackage_of_inClass {package name : String} {subject : Subject}
    (inside : subject.inClass package name = true) : subject.inPackage package = true := by
  cases subject with
  | package => simp [Subject.inClass] at inside
  | cls package' name' =>
      simp only [Subject.inClass, Bool.and_eq_true] at inside
      exact inside.1
  | member package' name' key =>
      simp only [Subject.inClass, Bool.and_eq_true] at inside
      exact inside.1

/-! ## Removals in order -/

/-- The findings that are removals. -/
def removalsAmong (entries : List (Subject × Finding)) : List Removal :=
  (entries.filter fun entry => isRemoval entry.2).map fun entry =>
    { subject := entry.1, code := entry.2.code, target := entry.2.target,
      location := entry.2.location }

theorem removalsAmong_append (first second : List (Subject × Finding)) :
    removalsAmong (first ++ second) = removalsAmong first ++ removalsAmong second := by
  simp [removalsAmong]

theorem removalsAmong_flatMap {α : Type} (items : List α)
    (block : α → List (Subject × Finding)) :
    removalsAmong (items.flatMap block) = items.flatMap fun item => removalsAmong (block item) := by
  simp only [removalsAmong, List.filter_flatMap, List.map_flatMap]

theorem removalsAmong_noRemoval (subject : Subject) {found : List Finding}
    (none : NoRemoval found) :
    removalsAmong (found.map fun finding => (subject, finding)) = [] := by
  rw [removalsAmong, List.map_eq_nil_iff, List.filter_eq_nil_iff]
  intro entry member
  obtain ⟨finding, stored, rfl⟩ := List.mem_map.mp member
  simp [none finding stored]

theorem removedMember_reports (file : String) (cls : ClassDecl) (was : Located Member) :
    (removedMember file cls was).issue = removalIssue was.item ∧
      (removedMember file cls was).code = removalCode was.item ∧
      (removedMember file cls was).target = memberTarget cls.qualifiedName was.item ∧
      (removedMember file cls was).location = { file, line := was.line } := by
  obtain ⟨_, item⟩ := was
  cases item <;> exact ⟨rfl, rfl, rfl, rfl⟩

theorem removalsAmong_member (sources : Sources) (package : String) (was now : ClassDecl)
    (member : Located Member) :
    removalsAmong (attributedMember sources package was now member) =
      match now.members.get? member.item.key with
      | none => [{
          subject := .member package was.name member.item.key
          code := removalCode member.item
          target := memberTarget was.qualifiedName member.item
          location := { file := sources.previous, line := member.line } }]
      | some _ => [] := by
  cases lookup : now.members.get? member.item.key with
  | none =>
      obtain ⟨_, code, target, location⟩ := removedMember_reports sources.previous was member
      have removes : isRemoval (removedMember sources.previous was member) = true := by
        rw [isRemoval, code]
        cases member.item <;> rfl
      simp [attributedMember, memberOutcome, lookup, removalsAmong, removes, code, target,
        location]
  | some found =>
      simp only [attributedMember, memberOutcome, lookup]
      exact removalsAmong_noRemoval _ (noRemoval_member _ _ _ _)

theorem removalsAmong_class (sources : Sources) (package : String) (now : Package)
    (was : Located ClassDecl) :
    removalsAmong (attributedClass sources package now was) =
      match now.classes.get? was.item.name with
      | none => [{
          subject := .cls package was.item.name
          code := 8
          target := was.item.qualifiedName
          location := { file := sources.previous, line := was.line } }]
      | some found => removedMembers sources.previous package was.item found.item := by
  cases lookup : now.classes.get? was.item.name with
  | none =>
      simp only [attributedClass, lookup]
      rfl
  | some found =>
      simp only [attributedClass, lookup]
      rw [removalsAmong_append, removalsAmong_noRemoval _ (noRemoval_declaration _ _ _),
        List.nil_append, removalsAmong_flatMap]
      exact List.flatMap_congr fun member _ => removalsAmong_member _ _ _ _ member

theorem removalsAmong_attributed (previous current : Api) :
    removalsAmong (attributed previous current) = removals previous current := by
  rw [attributed, removals, removalsAmong_flatMap]
  refine List.flatMap_congr fun package _ => ?_
  cases lookup : current.packages.get? package.item.name with
  | none =>
      simp only [attributedPackage, packageOutcome, lookup]
      cases package.item.classes.isEmpty <;> rfl
  | some found =>
      simp only [attributedPackage, lookup]
      rw [removalsAmong_flatMap]
      exact List.flatMap_congr fun cls _ => removalsAmong_class _ _ _ cls

/-! ## Nothing inside what is removed -/

theorem filter_inPackage {previous current : Api} (keyed : previous.Keyed)
    {package : Located Package} (stored : package ∈ previous.packages.values)
    {test : Subject → Bool}
    (inside : ∀ subject, test subject = true → subject.inPackage package.item.name = true) :
    (attributed previous current).filter (fun entry => test entry.1) =
      (attributedPackage { previous := previous.source, current := current.source } current
        package).filter fun entry => test entry.1 := by
  refine filter_flatMap_block keyed.names_nodup stored fun other _ differs => ?_
  rw [List.filter_eq_nil_iff]
  intro entry member passes
  have same := inside entry.1 passes
  rw [attributedPackage_inPackage member] at same
  exact differs (beq_iff_eq.mp same)

theorem filter_inClass {previous current : Api} (keyed : previous.Keyed)
    {package : Located Package} (packageStored : package ∈ previous.packages.values)
    {found : Located Package} (lookup : current.packages.get? package.item.name = some found)
    {cls : Located ClassDecl} (stored : cls ∈ package.item.classes.values)
    {test : Subject → Bool}
    (inside : ∀ subject, test subject = true →
      subject.inClass package.item.name cls.item.name = true) :
    (attributed previous current).filter (fun entry => test entry.1) =
      (attributedClass { previous := previous.source, current := current.source }
        package.item.name found.item cls).filter fun entry => test entry.1 := by
  have packageKeyed := (keyed.name_of_get? (keyed.get?_name packageStored)).2
  rw [filter_inPackage keyed packageStored fun subject passes =>
    Subject.inPackage_of_inClass (inside subject passes)]
  simp only [attributedPackage, lookup]
  refine filter_flatMap_block packageKeyed.names_nodup stored fun other _ differs => ?_
  rw [List.filter_eq_nil_iff]
  intro entry member passes
  have same := inside entry.1 passes
  rcases attributedClass_inClass member with subject | ⟨key, subject⟩ <;>
    · rw [subject] at same
      simp only [Subject.inClass, Bool.and_eq_true, beq_iff_eq] at same
      exact differs same.2

theorem filter_member {previous current : Api} (keyed : previous.Keyed)
    {package : Located Package} (packageStored : package ∈ previous.packages.values)
    {found : Located Package} (packageLookup : current.packages.get? package.item.name = some found)
    {cls : Located ClassDecl} (classStored : cls ∈ package.item.classes.values)
    {now : Located ClassDecl} (classLookup : found.item.classes.get? cls.item.name = some now)
    {member : Located Member} (stored : member ∈ cls.item.members.values) :
    (attributed previous current).filter
        (fun entry => entry.1 = .member package.item.name cls.item.name member.item.key) =
      attributedMember { previous := previous.source, current := current.source }
        package.item.name cls.item now.item member := by
  have packageKeyed := (keyed.name_of_get? (keyed.get?_name packageStored)).2
  have classKeyed := (packageKeyed.name_of_get? (packageKeyed.get?_name classStored)).2
  have inside : ∀ subject : Subject,
      decide (subject = .member package.item.name cls.item.name member.item.key) = true →
        subject.inClass package.item.name cls.item.name = true := by
    intro subject same
    rw [of_decide_eq_true same]
    simp [Subject.inClass]
  rw [filter_inClass keyed packageStored packageLookup classStored inside]
  simp only [attributedClass, classLookup]
  rw [List.filter_append, List.filter_eq_nil_iff.mpr, List.nil_append,
    filter_flatMap_block classKeyed.keys_nodup stored]
  · rw [List.filter_eq_self]
    intro entry inMember
    simp [attributedMember_subject inMember]
  · intro other _ differs
    rw [List.filter_eq_nil_iff]
    intro entry inOther passes
    have subject := attributedMember_subject inOther
    rw [of_decide_eq_true passes] at subject
    exact differs (Subject.member.inj subject).2.2.symm
  · intro entry declared
    obtain ⟨_, _, rfl⟩ := List.mem_map.mp declared
    simp

/-- What the current API lacks is reported removed once and at the highest level, under its name
and at its line, in the order of the previous API, and nothing else is reported removed. -/
theorem removals_exact (previous current : Api) (keyed : previous.Keyed)
    (modes : previous.nullMode = current.nullMode) :
    ∃ report, previous.compare current = .ok report ∧
      (attributed previous current).map Prod.snd = report.findings ∧
      removalsAmong (attributed previous current) = removals previous current ∧
      (∀ package ∈ previous.packages.values,
        current.packages.get? package.item.name = none →
        package.item.classes.isEmpty = false →
        ∃ finding, finding.issue = .removedPackage ∧ finding.code = 7 ∧
          finding.target = package.item.name ∧
          finding.location = { file := previous.source, line := package.line } ∧
          (attributed previous current).filter
              (fun entry => entry.1.inPackage package.item.name) =
            [(.package package.item.name, finding)]) ∧
      (∀ package ∈ previous.packages.values, ∀ found,
        current.packages.get? package.item.name = some found →
        ∀ cls ∈ package.item.classes.values, found.item.classes.get? cls.item.name = none →
        ∃ finding, finding.issue = .removedClass ∧ finding.code = 8 ∧
          finding.target = cls.item.qualifiedName ∧
          finding.location = { file := previous.source, line := cls.line } ∧
          (attributed previous current).filter
              (fun entry => entry.1.inClass package.item.name cls.item.name) =
            [(.cls package.item.name cls.item.name, finding)]) ∧
      (∀ package ∈ previous.packages.values, ∀ found,
        current.packages.get? package.item.name = some found →
        ∀ cls ∈ package.item.classes.values, ∀ now,
        found.item.classes.get? cls.item.name = some now →
        ∀ member ∈ cls.item.members.values, now.item.members.get? member.item.key = none →
        ∃ finding, finding.issue = removalIssue member.item ∧
          finding.code = removalCode member.item ∧
          finding.target = memberTarget cls.item.qualifiedName member.item ∧
          finding.location = { file := previous.source, line := member.line } ∧
          (attributed previous current).filter
              (fun entry => entry.1 = .member package.item.name cls.item.name member.item.key) =
            [(.member package.item.name cls.item.name member.item.key, finding)]) := by
  refine ⟨_, (Api.compare_eq_ok_iff _ _ _).mpr ⟨modes, rfl⟩, attributed_findings previous current,
    removalsAmong_attributed previous current, ?_, ?_, ?_⟩
  · intro package stored lookup filled
    rw [filter_inPackage keyed stored fun _ passes => passes]
    simp [attributedPackage, packageOutcome, lookup, filled, Subject.inPackage, Finding.warning,
      Issue.code]
  · intro package packageStored found lookup cls stored missing
    rw [filter_inClass keyed packageStored lookup stored fun _ passes => passes]
    simp [attributedClass, missing, Subject.inClass, removedClass, Finding.warning, Issue.code]
  · intro package packageStored found lookup cls classStored now classLookup member stored missing
    obtain ⟨issue, code, target, location⟩ :=
      removedMember_reports previous.source cls.item member
    refine ⟨removedMember previous.source cls.item member, issue, code, target, location, ?_⟩
    rw [filter_member keyed packageStored lookup classStored classLookup stored]
    simp [attributedMember, memberOutcome, missing]

def removalSample (packages classes : List String) (members : List Member) : Api where
  source := "api.txt"
  nullMode := .legacy
  packages := .ofList (packages.map fun package => (package, {
    line := 1
    item := {
      name := package
      classes := .ofList (classes.map fun name => (name, {
        line := 2
        item := {
          name
          qualifiedName := qualify package name
          kind := .classKind
          members := .ofList (members.map fun item => (item.key, { line := 3, item })) } })) } }))

/-- Two packages with two classes each, and two members in each class. -/
def fullSample : Api :=
  removalSample ["p", "q"] ["C", "D"]
    [.constructor { name := "C" }, .field { name := "x", type := { name := "int" } }]

theorem removals_exact_fullSample :
    fullSample.Keyed ∧ ∃ report,
      fullSample.compare (removalSample ["p"] ["C"] []) = .ok report ∧
      (attributed fullSample (removalSample ["p"] ["C"] [])).map Prod.snd = report.findings ∧
      removalsAmong (attributed fullSample (removalSample ["p"] ["C"] [])) =
        [⟨.member "p" "C" (.constructor []), 9, "p.C()", ⟨"api.txt", 3⟩⟩,
          ⟨.member "p" "C" (.field "x"), 10, "p.C.x", ⟨"api.txt", 3⟩⟩,
          ⟨.cls "p" "D", 8, "p.D", ⟨"api.txt", 2⟩⟩, ⟨.package "q", 7, "q", ⟨"api.txt", 1⟩⟩] := by
  obtain ⟨report, run, whole, order, _⟩ :=
    removals_exact fullSample (removalSample ["p"] ["C"] []) (by decide) rfl
  exact ⟨by decide, report, run, whole, order.trans (by decide)⟩

end ApiCompat.Compare
