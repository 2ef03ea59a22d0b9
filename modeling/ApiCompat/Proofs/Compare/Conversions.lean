import ApiCompat.Proofs.Compare.Matching
import ApiCompat.Proofs.Compare.Rules
import Mathlib.Data.List.Induction

/-!
# Conversions of nullness

A member says something about null at its sites: in what it returns or holds,
and in each parameter.  A conversion is a regression at a site of a member that
both APIs have.  A comparison reports the conversions in the order of the
previous API, but those at results that are `void` now (`conversions_exact_iff`).
A method that returned nothing before is therefore reported against what it
returns now (`conversions_void_before`).
-/

set_option autoImplicit false

namespace ApiCompat

/-- A place in a member at which its declaration says something about null. -/
inductive NullSite where
  /-- What a method returns or a field holds. -/
  | result
  | parameter (index : Nat)
deriving DecidableEq

def NullSite.position : NullSite → Position
  | result => .result
  | parameter _ => .parameter

namespace Member

def parameters : Member → List Parameter
  | constructor item => item.parameters
  | method item => item.parameters
  | field _ => []

/-- The type at a site, if the member has the site. -/
def typeAt? : Member → NullSite → Option TypeRef
  | method item, .result => some item.returnType
  | field item, .result => some item.type
  | constructor _, .result => none
  | member, .parameter index => member.parameters[index]?.map Parameter.type

def isVoidAt : Member → NullSite → Bool
  | method item, .result => item.returnType.isVoid
  | _, _ => false

/-- The sites of a member, the result first and the parameters by index. -/
def nullSites (member : Member) : List NullSite :=
  .result :: (List.range member.parameters.length).map .parameter

end Member

/-! ## Kinds of classes -/

/-- A package with the kinds of its classes given by their names. -/
def Package.withKinds (package : Package) (kind : String → ClassKind) : Package :=
  { package with
    classes := package.classes.mapValues fun cls =>
      { cls with item := { cls.item with kind := kind cls.item.name } } }

/-- An API with the kinds of its classes given by the names of package and class. -/
def Api.withKinds (api : Api) (kind : String → String → ClassKind) : Api :=
  { api with
    packages := api.packages.mapValues fun package =>
      { package with item := package.item.withKinds (kind package.item.name) } }

theorem Api.Keyed.withKinds {api : Api} (keyed : api.Keyed)
    (kind : String → String → ClassKind) : (api.withKinds kind).Keyed := by
  intro package packageStored
  obtain ⟨original, originalStored, rfl⟩ := List.mem_map.mp packageStored
  obtain ⟨packageName, packageKeyed⟩ := keyed original originalStored
  refine ⟨packageName, ?_⟩
  intro cls classStored
  obtain ⟨originalClass, stored, rfl⟩ := List.mem_map.mp classStored
  exact packageKeyed originalClass stored

theorem Api.classIn?_withKinds (api : Api) (kind : String → String → ClassKind)
    (package name : String) :
    ((api.withKinds kind).classIn? package name = none ∧ api.classIn? package name = none) ∨
      ∃ found kind', (api.withKinds kind).classIn? package name =
          some { found with item := { found.item with kind := kind' } } ∧
        api.classIn? package name = some found := by
  simp only [Api.classIn?, Api.withKinds, OrderedMap.get?_mapValues]
  cases api.packages.get? package with
  | none => exact .inl ⟨rfl, rfl⟩
  | some found =>
      simp only [Option.map_some, Option.bind_some, Package.withKinds, OrderedMap.get?_mapValues]
      cases found.item.classes.get? name with
      | none => exact .inl ⟨rfl, rfl⟩
      | some cls => exact .inr ⟨cls, _, rfl, rfl⟩

namespace Compare

/-! ## Matched members -/

/-- A member of the previous API and the one found in its place; `owner` is the qualified name of
the current version of its class. -/
structure MatchedMember where
  owner : String
  was : Located Member
  now : Located Member

def matchedInClass (was now : ClassDecl) : List MatchedMember :=
  was.members.entries.filterMap fun entry =>
    (now.members.get? entry.1).map fun found => ⟨now.qualifiedName, entry.2, found⟩

/-- The members of the previous API that the current one has, in the order of the previous one. -/
def matchedMembers (previous current : Api) : List MatchedMember :=
  previous.packages.entries.flatMap fun package =>
    package.2.item.classes.entries.flatMap fun cls =>
      match current.classIn? package.1 cls.1 with
      | some found => matchedInClass cls.2.item found.item
      | none => []

/-! ## Conversions -/

/-- A regression of nullness at a site of a matched member. -/
structure Conversion where
  member : MatchedMember
  site : NullSite
  regression : Regression

/-- What the change of a member regresses to at a site that both versions have. -/
def MatchedMember.regressionAt? (member : MatchedMember) (site : NullSite) : Option Regression :=
  match member.was.item.typeAt? site, member.now.item.typeAt? site with
  | some before, some after => regression? before.nullness after.nullness site.position
  | _, _ => none

def MatchedMember.conversions (member : MatchedMember) : List Conversion :=
  member.was.item.nullSites.filterMap fun site =>
    (member.regressionAt? site).map fun regression => ⟨member, site, regression⟩

def conversions (previous current : Api) : List Conversion :=
  (matchedMembers previous current).flatMap MatchedMember.conversions

/-- What messages call the place of a site; `owner` is the qualified name of the class. -/
def memberLabel (owner : String) : Member → String
  | .constructor _ => owner
  | .method item => owner ++ "." ++ item.name
  | .field item => owner ++ "." ++ item.name

/-- What a message calls a site of a member, and the word for the kind of site. -/
def siteWording (owner : String) (member : Member) : NullSite → String × String
  | .parameter index =>
      let name := member.parameters[index]?.map fun parameter => parameter.displayName index
      ("parameter " ++ name.getD "" ++ " in " ++ memberLabel owner member, "parameter")
  | .result =>
      match member with
      | .method _ => ("method " ++ memberLabel owner member, "method return")
      | _ => ("field " ++ memberLabel owner member, "field")

namespace Conversion

def wasVoid (conversion : Conversion) : Bool :=
  conversion.member.was.item.isVoidAt conversion.site

def isVoid (conversion : Conversion) : Bool :=
  conversion.member.now.item.isVoidAt conversion.site

/-- The finding about a conversion, in a report on the given file. -/
def finding (file : String) (conversion : Conversion) : Finding :=
  let owner := conversion.member.owner
  let now := conversion.member.now
  let wording := siteWording owner now.item conversion.site
  { issue := .invalidNullConversion
    code := 40
    severity := .warning
    message := regressionMessage conversion.regression wording.1 wording.2
    target := memberTarget owner now.item
    location := { file, line := now.line } }

end Conversion

def isConversion (found : Finding) : Bool := found.issue == .invalidNullConversion

def conversionFindings (found : List Finding) : List Finding := found.filter isConversion

/-- The findings about the conversions at results that neither version has as `void`, and at all
other sites. -/
def promised (file : String) (found : List Conversion) : List Finding :=
  (found.filter fun conversion => !conversion.wasVoid && !conversion.isVoid).map
    (Conversion.finding file)

/-- The findings about the conversions but those at results that are `void` now. -/
def reported (file : String) (found : List Conversion) : List Finding :=
  (found.filter fun conversion => !conversion.isVoid).map (Conversion.finding file)

/-! ## Conversions in a report -/

theorem reported_append (file : String) (first second : List Conversion) :
    reported file (first ++ second) = reported file first ++ reported file second := by
  simp [reported]

theorem conversionFindings_append (first second : List Finding) :
    conversionFindings (first ++ second) =
      conversionFindings first ++ conversionFindings second := by
  simp [conversionFindings]

theorem conversionFindings_flatMap {α : Type} (items : List α) (block : α → List Finding) :
    conversionFindings (items.flatMap block) =
      items.flatMap fun item => conversionFindings (block item) :=
  List.filter_flatMap

theorem conversionFindings_none {spot : Spot} {issues : List Issue} {found : List Finding}
    (reports : spot.Reports issues found) (other : .invalidNullConversion ∉ issues) :
    conversionFindings found = [] :=
  reports.ofIssue_eq_nil other

theorem conversionFindings_all {spot : Spot} {found : List Finding}
    (reports : spot.Reports [.invalidNullConversion] found) :
    conversionFindings found = found := by
  rw [conversionFindings, List.filter_eq_self]
  intro finding member
  obtain ⟨issue, listed, message, rfl⟩ := reports finding member
  obtain rfl := List.mem_singleton.mp listed
  rfl

/-- What is reported at one site of a matched member. -/
def MatchedMember.reportedAt (member : MatchedMember) (file : String) (site : NullSite) :
    List Finding :=
  reported file ((member.regressionAt? site).map fun regression =>
    ⟨member, site, regression⟩).toList

theorem reported_conversions (file : String) (member : MatchedMember) :
    reported file member.conversions =
      member.reportedAt file .result ++
        (List.range member.was.item.parameters.length).flatMap fun index =>
          member.reportedAt file (.parameter index) := by
  simp only [MatchedMember.conversions, Member.nullSites, List.filterMap_eq_flatMap_toList,
    List.flatMap_cons, reported_append, List.flatMap_map]
  congr 1
  simp only [reported, List.filter_flatMap, List.map_flatMap, MatchedMember.reportedAt]

/-- Going through a list with indices is going through its indices. -/
theorem zipIdx_flatMap {α β : Type} (items : List α) (block : α × Nat → List β) :
    items.zipIdx.flatMap block = (List.range items.length).flatMap fun index =>
      (items[index]?.map fun item => block (item, index)).getD [] := by
  induction items using List.reverseRecOn with
  | nil => rfl
  | append_singleton items last ih =>
      rw [List.zipIdx_append, List.flatMap_append, ih, List.length_append, List.length_singleton,
        List.range_succ, List.flatMap_append]
      congr 1
      · apply List.flatMap_congr
        intro index member
        rw [List.getElem?_append_left (List.mem_range.mp member)]
      · simp

/-! ## Single members -/

theorem typeAt?_parameter (member : Member) (index : Nat) :
    member.typeAt? (.parameter index) = member.parameters[index]?.map Parameter.type := by
  cases member <;> rfl

section Members

variable (file : String) (cls : ClassDecl) (was now : Located Member)

def MatchedMember.inClass : MatchedMember := ⟨cls.qualifiedName, was, now⟩

theorem reportedAt_void {site : NullSite} (void : now.item.isVoidAt site = true) :
    (MatchedMember.inClass cls was now).reportedAt file site = [] := by
  cases change : (MatchedMember.inClass cls was now).regressionAt? site with
  | none => simp [MatchedMember.reportedAt, change, reported]
  | some regression =>
      have isVoid : (⟨MatchedMember.inClass cls was now, site, regression⟩ : Conversion).isVoid =
        true := void
      simp [MatchedMember.reportedAt, change, reported, isVoid]

theorem reportedAt_eq {site : NullSite} (full : now.item.isVoidAt site = false) :
    (MatchedMember.inClass cls was now).reportedAt file site =
      nullnessFindings (memberSpot file cls now)
        (siteWording cls.qualifiedName now.item site).1
        (siteWording cls.qualifiedName now.item site).2
        ((MatchedMember.inClass cls was now).regressionAt? site) := by
  cases change : (MatchedMember.inClass cls was now).regressionAt? site with
  | none => simp [MatchedMember.reportedAt, change, reported, nullnessFindings]
  | some regression =>
      have isVoid : (⟨MatchedMember.inClass cls was now, site, regression⟩ : Conversion).isVoid =
        false := full
      simp only [MatchedMember.reportedAt, change, reported, Option.map_some, Option.toList_some,
        List.filter_cons, isVoid]
      rfl

theorem parameterFindings_eq
    (aligned : was.item.parameters.length = now.item.parameters.length) :
    parameterFindings (memberSpot file cls now) (memberLabel cls.qualifiedName now.item)
        was.item.parameters now.item.parameters =
      (List.range was.item.parameters.length).flatMap fun index =>
        (MatchedMember.inClass cls was now).reportedAt file (.parameter index) := by
  have count : (was.item.parameters.zip now.item.parameters).length =
      was.item.parameters.length := by
    rw [List.length_zip, ← aligned, Nat.min_self]
  rw [parameterFindings, zipIdx_flatMap, count]
  apply List.flatMap_congr
  intro index member
  have full : now.item.isVoidAt (.parameter index) = false := by cases now.item <;> rfl
  have inWas : index < was.item.parameters.length := List.mem_range.mp member
  have inNow : index < now.item.parameters.length := aligned ▸ inWas
  have both : (was.item.parameters.zip now.item.parameters)[index]? =
      some (was.item.parameters[index], now.item.parameters[index]) := by
    rw [List.getElem?_zip_eq_some]
    exact ⟨List.getElem?_eq_getElem inWas, List.getElem?_eq_getElem inNow⟩
  rw [reportedAt_eq file cls was now full, both]
  simp [MatchedMember.regressionAt?, MatchedMember.inClass, typeAt?_parameter, siteWording,
    NullSite.position, inWas, inNow]

theorem conversionFindings_constructor (line line' : Nat) (before after : Constructor)
    (aligned : before.parameters.length = after.parameters.length) :
    conversionFindings (constructorFindings file line' cls before after) =
      reported file (MatchedMember.inClass cls ⟨line, .constructor before⟩
        ⟨line', .constructor after⟩).conversions := by
  obtain ⟨front, plain, whole⟩ := constructorFindings_split file line' cls before after
  have noResult : (MatchedMember.inClass cls ⟨line, .constructor before⟩
      ⟨line', .constructor after⟩).reportedAt file .result = [] := rfl
  rw [whole, conversionFindings_append, conversionFindings_none plain (by decide),
    conversionFindings_all (reports_parameters _ _ _ _), reported_conversions, noResult]
  exact parameterFindings_eq file cls ⟨line, .constructor before⟩ ⟨line', .constructor after⟩
    aligned

theorem resultFindings_eq (line line' : Nat) (before after : Method) :
    resultFindings (memberSpot file cls ⟨line', .method after⟩)
        (cls.qualifiedName ++ "." ++ after.name) before after =
      (MatchedMember.inClass cls ⟨line, .method before⟩ ⟨line', .method after⟩).reportedAt file
        .result := by
  rw [resultFindings]
  cases void : after.returnType.isVoid with
  | true =>
      have skipped : (Member.method after).isVoidAt .result = true := void
      exact (reportedAt_void file cls ⟨line, .method before⟩ ⟨line', .method after⟩ skipped).symm
  | false =>
      have checked : (Member.method after).isVoidAt .result = false := void
      exact (reportedAt_eq file cls ⟨line, .method before⟩ ⟨line', .method after⟩ checked).symm

theorem conversionFindings_method (line line' : Nat) (before after : Method)
    (aligned : before.parameters.length = after.parameters.length) :
    conversionFindings (methodFindings file line' cls before after) =
      reported file (MatchedMember.inClass cls ⟨line, .method before⟩
        ⟨line', .method after⟩).conversions := by
  obtain ⟨front, plain, whole⟩ := methodFindings_split file line' cls before after
  rw [whole, conversionFindings_append, conversionFindings_append,
    conversionFindings_none plain (by decide), conversionFindings_all (reports_result _ _ _ _),
    conversionFindings_all (reports_parameters _ _ _ _), List.nil_append, reported_conversions,
    resultFindings_eq file cls line]
  congr 1
  exact parameterFindings_eq file cls ⟨line, .method before⟩ ⟨line', .method after⟩ aligned

theorem conversionFindings_field (line line' : Nat) (before after : Field) :
    conversionFindings (fieldFindings file line' cls before after) =
      reported file (MatchedMember.inClass cls ⟨line, .field before⟩
        ⟨line', .field after⟩).conversions := by
  obtain ⟨front, plain, whole⟩ := fieldFindings_split file line' cls before after
  rw [whole, conversionFindings_append, conversionFindings_none plain (by decide),
    conversionFindings_all (reports_nullness _ _ _ _), List.nil_append, reported_conversions]
  have checked : (Member.field after).isVoidAt .result = false := rfl
  have noParameters : (List.range (MatchedMember.inClass cls ⟨line, .field before⟩
      ⟨line', .field after⟩).was.item.parameters.length).flatMap (fun index =>
        (MatchedMember.inClass cls ⟨line, .field before⟩ ⟨line', .field after⟩).reportedAt file
          (.parameter index)) = [] := rfl
  rw [noParameters, List.append_nil]
  exact (reportedAt_eq file cls ⟨line, .field before⟩ ⟨line', .field after⟩ checked).symm

/-- Of what is reported of a member the conversions are just those that count. -/
theorem conversionFindings_member (sameKey : was.item.key = now.item.key) :
    conversionFindings (memberFindings file cls was now) =
      reported file (MatchedMember.inClass cls was now).conversions := by
  obtain ⟨line, before⟩ := was
  obtain ⟨line', after⟩ := now
  cases before <;> cases after <;> simp only [Member.key, reduceCtorEq] at sameKey
  case constructor.constructor before after =>
    exact conversionFindings_constructor file cls line line' before after
      (erasures_length (MemberKey.constructor.inj sameKey))
  case method.method before after =>
    exact conversionFindings_method file cls line line' before after
      (erasures_length (MemberKey.method.inj sameKey).2)
  case field.field before after =>
    exact conversionFindings_field file cls line line' before after

end Members

/-! ## Whole comparisons -/

theorem conversionFindings_single {found : Finding} (other : found.issue ≠ .invalidNullConversion) :
    conversionFindings [found] = [] := by
  simp [conversionFindings, isConversion, other]

theorem conversionFindings_class (sources : Sources) {was now : Located ClassDecl}
    (wasKeyed : was.item.Keyed) (nowKeyed : now.item.Keyed) :
    conversionFindings (classFindings sources was now) =
      (matchedInClass was.item now.item).flatMap fun member =>
        reported sources.current member.conversions := by
  rw [classFindings, conversionFindings_append, conversionFindings_flatMap,
    conversionFindings_none (reports_declaration _ _ _) (by decide), List.nil_append,
    matchedInClass, List.filterMap_eq_flatMap_toList, List.flatMap_assoc, OrderedMap.values,
    List.flatMap_map]
  apply List.flatMap_congr
  intro entry stored
  have key := wasKeyed entry stored
  rw [memberOutcome, ← key]
  cases found : now.item.members.get? entry.1 with
  | none =>
      have other : (removedMember sources.previous was.item entry.2).issue ≠
          .invalidNullConversion := by
        rw [removedMember]
        cases entry.2.item <;> simp [Finding.warning]
      simp [conversionFindings_single other]
  | some member =>
      have sameKey := nowKeyed.key_of_get? found
      rw [key] at sameKey
      simp only [conversionFindings_member sources.current now.item entry.2 member sameKey.symm]
      simp [MatchedMember.inClass]

theorem reported_flatMap {α : Type} (file : String) (items : List α)
    (block : α → List Conversion) :
    reported file (items.flatMap block) = items.flatMap fun item => reported file (block item) := by
  simp only [reported, List.filter_flatMap, List.map_flatMap]

/-- The conversions in a report are those of the matched members, in order, but at results that
are `void` now. -/
theorem conversionFindings_findings {previous current : Api} (keyed : previous.Keyed)
    (currentKeyed : current.Keyed) :
    conversionFindings (findings previous current) =
      reported current.source (conversions previous current) := by
  rw [findings, conversionFindings_flatMap, conversions, matchedMembers, List.flatMap_assoc,
    reported_flatMap, OrderedMap.values, List.flatMap_map]
  apply List.flatMap_congr
  intro package packageStored
  obtain ⟨packageName, packageKeyed⟩ := keyed package packageStored
  rw [packageOutcome, ← packageName, List.flatMap_assoc, reported_flatMap]
  cases lookup : current.packages.get? package.1 with
  | none =>
      have unmatched : ∀ name, current.classIn? package.1 name = none := by
        intro name
        simp [Api.classIn?, lookup]
      simp only [unmatched, List.flatMap_nil, reported, List.filter_nil, List.map_nil]
      split
      · simp [conversionFindings]
      · rw [conversionFindings_single (by simp [Finding.warning])]
        simp
  | some found =>
      rw [conversionFindings_flatMap, OrderedMap.values, List.flatMap_map]
      apply List.flatMap_congr
      intro cls classStored
      obtain ⟨className, classKeyed⟩ := packageKeyed cls classStored
      have same : current.classIn? package.1 cls.1 = found.item.classes.get? cls.2.item.name := by
        simp [Api.classIn?, lookup, className]
      rw [classOutcome, same]
      cases classLookup : found.item.classes.get? cls.2.item.name with
      | none =>
          rw [conversionFindings_single (by simp [removedClass, Finding.warning])]
          rfl
      | some now =>
          have nowKeyed :=
            ((currentKeyed.name_of_get? lookup).2.name_of_get? classLookup).2
          simp only
          rw [conversionFindings_class _ classKeyed nowKeyed, reported_flatMap]

/-- All that is promised is reported, and nothing else just where no result was `void` before that
is not `void` now. -/
theorem reported_eq_promised_iff (file : String) (found : List Conversion) :
    reported file found = promised file found ↔
      ∀ conversion ∈ found, conversion.wasVoid = true → conversion.isVoid = true := by
  have refined : promised file found =
      ((found.filter fun conversion => !conversion.isVoid).filter
        fun conversion => !conversion.wasVoid).map (Conversion.finding file) := by
    rw [promised, List.filter_filter]
  rw [refined, reported]
  constructor
  · intro same conversion member wasVoid
    by_contra full
    have lengths := congrArg List.length same
    rw [List.length_map, List.length_map] at lengths
    have all := List.length_filter_eq_length_iff.mp lengths.symm
    have counts : conversion ∈ found.filter fun conversion => !conversion.isVoid :=
      List.mem_filter.mpr ⟨member, by simpa using full⟩
    have notVoid := all conversion counts
    rw [wasVoid] at notVoid
    cases notVoid
  · intro regained
    congr 1
    rw [eq_comm, List.filter_eq_self]
    intro conversion member
    obtain ⟨stored, full⟩ := List.mem_filter.mp member
    cases wasVoid : conversion.wasVoid with
    | false => rfl
    | true =>
        rw [regained conversion stored wasVoid] at full
        cases full

/-! ## Kinds take no part -/

/-- Kinds take no part in what members are matched with. -/
theorem matchedMembers_withKinds (previous current : Api)
    (kind kind' : String → String → ClassKind) :
    matchedMembers (previous.withKinds kind) (current.withKinds kind') =
      matchedMembers previous current := by
  have packages : (previous.withKinds kind).packages.entries =
      previous.packages.entries.map fun package => (package.1, { package.2 with
        item := package.2.item.withKinds (kind package.2.item.name) }) := rfl
  rw [matchedMembers, packages, List.flatMap_map]
  apply List.flatMap_congr
  intro package _
  simp only [Package.withKinds, OrderedMap.mapValues, List.flatMap_map]
  apply List.flatMap_congr
  intro cls _
  rcases current.classIn?_withKinds kind' package.1 cls.1 with
    ⟨missing, missing'⟩ | ⟨found, kind, changed, unchanged⟩
  · rw [missing, missing']
  · rw [changed, unchanged]
    rfl

/-- A comparison reports each conversion of nullness once and in order, the kinds of classes apart,
and it reports just those promised where no `void` result became another. -/
theorem conversions_exact_iff (previous current : Api) (keyed : previous.Keyed)
    (currentKeyed : current.Keyed) (modes : previous.nullMode = current.nullMode) :
    ∃ report, previous.compare current = .ok report ∧
      conversionFindings report.findings =
        reported current.source (conversions previous current) ∧
      (conversionFindings report.findings =
          promised current.source (conversions previous current) ↔
        ∀ conversion ∈ conversions previous current,
          conversion.wasVoid = true → conversion.isVoid = true) ∧
      ∀ kind kind', ∃ report',
        (previous.withKinds kind).compare (current.withKinds kind') = .ok report' ∧
          conversionFindings report'.findings = conversionFindings report.findings := by
  have found := conversionFindings_findings keyed currentKeyed
  refine ⟨_, (Api.compare_eq_ok_iff _ _ _).mpr ⟨modes, rfl⟩, found, ?_, ?_⟩
  · rw [← reported_eq_promised_iff current.source, ← found]
    rfl
  · intro kind kind'
    have modes' : (previous.withKinds kind).nullMode = (current.withKinds kind').nullMode := modes
    refine ⟨_, (Api.compare_eq_ok_iff _ _ _).mpr ⟨modes', rfl⟩, ?_⟩
    have found' := conversionFindings_findings (keyed.withKinds kind)
      (currentKeyed.withKinds kind')
    rw [conversions, matchedMembers_withKinds] at found'
    exact found'.trans found.symm

/-- A class with a constructor, a method and a field, for closed checks; `first` is the nullness of
all that is of type `A`. -/
def nullnessSample (nullMode : NullMode) (result : TypeRef) (first second : Nullness) : Api where
  source := "api.txt"
  nullMode := nullMode
  packages := .ofList [("p", {
    line := 1
    item := {
      name := "p"
      classes := .ofList [("C", {
        line := 2
        item := {
          name := "C"
          qualifiedName := "p.C"
          kind := .classKind
          members := .ofList [
            (.constructor ["A"], {
              line := 3
              item := .constructor {
                name := "C", parameters := [{ type := { name := "A", nullness := first } }] } }),
            (.method "f" ["A", "B"], {
              line := 4
              item := .method {
                name := "f"
                returnType := result
                parameters := [{ type := { name := "A", nullness := first } },
                  { type := { name := "B", nullness := second } }] } }),
            (.field "x", {
              line := 5
              item := .field { name := "x", type := { name := "A", nullness := first } } })] } })] } })]

theorem conversions_exact_nullnessSample :
    ∃ report,
      (nullnessSample .legacy { name := "A", nullness := .nonNull } .nullable .unspecified).compare
        (nullnessSample .legacy { name := "A", nullness := .nullable } .unspecified .nonNull) =
          .ok report ∧
      report.codes = [40, 40, 40, 40] ∧
      conversionFindings report.findings = promised "api.txt" (conversions
        (nullnessSample .legacy { name := "A", nullness := .nonNull } .nullable .unspecified)
        (nullnessSample .legacy { name := "A", nullness := .nullable } .unspecified .nonNull)) := by
  obtain ⟨report, run, _, exact, _⟩ := conversions_exact_iff
    (nullnessSample .legacy { name := "A", nullness := .nonNull } .nullable .unspecified)
    (nullnessSample .legacy { name := "A", nullness := .nullable } .unspecified .nonNull)
    (by decide) (by decide) rfl
  have same := ((Api.compare_eq_ok_iff _ _ _).mp run).2
  refine ⟨report, run, by rw [same]; decide, exact.mpr ?_⟩
  decide

/-- A result that was `void` is reported against the one that a method has now. -/
theorem conversions_void_before :
    (nullnessSample .nullAware { name := "void", nullness := .nonNull } .nonNull .nonNull).Keyed ∧
    (nullnessSample .nullAware { name := "A", nullness := .nullable } .nonNull .nonNull).Keyed ∧
    ∃ report,
      (nullnessSample .nullAware { name := "void", nullness := .nonNull } .nonNull .nonNull).compare
        (nullnessSample .nullAware { name := "A", nullness := .nullable } .nonNull .nonNull) =
          .ok report ∧
      report.codes = [16, 40] ∧
      conversionFindings report.findings ≠ promised "api.txt" (conversions
        (nullnessSample .nullAware { name := "void", nullness := .nonNull } .nonNull .nonNull)
        (nullnessSample .nullAware { name := "A", nullness := .nullable } .nonNull .nonNull)) := by
  refine ⟨by decide, by decide, _, rfl, by decide, ?_⟩
  intro same
  have lengths := congrArg List.length same
  revert lengths
  decide

end Compare

end ApiCompat
