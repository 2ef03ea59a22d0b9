import ApiCompat.Proofs.Compare.Visits
import ApiCompat.Proofs.Signature.ClassGives
import ApiCompat.Proofs.TypeRef.Displayed

/-!
# Changes of types as they are reported

A type that a text mentions, at whatever depth, is formed as the reader forms
types, so two such types have the same shape exactly when they are displayed
alike.  A comparison that compares shapes therefore reports a change of type
just where the two types it shows differ as texts.
-/

set_option autoImplicit false

namespace ApiCompat

/-! ## The types of an API -/

/-- The types that a type is made of, itself included. -/
inductive TypeRef.Part (type : TypeRef) : TypeRef → Prop
  | whole : Part type type
  | arg {outer inner : TypeRef} (part : Part type outer) (member : inner ∈ outer.args) :
      Part type inner
  | bound {outer inner : TypeRef} (part : Part type outer)
      (limit : outer.bound = .upper inner ∨ outer.bound = .lower inner) : Part type inner

def Member.types : Member → List TypeRef
  | .constructor item =>
      item.typeParams.flatMap TypeParam.bounds ++ item.parameters.map Parameter.type ++ item.throws
  | .method item =>
      item.typeParams.flatMap TypeParam.bounds ++ item.returnType ::
        item.parameters.map Parameter.type ++ item.throws
  | .field item => [item.type]

/-- The types that a class and its members are declared with. -/
def ClassDecl.types (cls : ClassDecl) : List TypeRef :=
  cls.typeParams.flatMap TypeParam.bounds ++ cls.superclass.toList ++ cls.interfaces.toList ++
    cls.members.values.flatMap fun member => member.item.types

/-- The type is one of those that a declaration of the API is made with, or part of one. -/
def Api.Mentions (api : Api) (type : TypeRef) : Prop :=
  ∃ cls ∈ api.classes, ∃ declared ∈ cls.item.types, declared.Part type

variable {allowed : String → Prop}

theorem TypeRef.Formed.part {type inner : TypeRef} (formed : type.Formed allowed)
    (part : type.Part inner) : inner.Formed allowed := by
  induction part with
  | whole => exact formed
  | arg _ member ih => exact TypeRef.formedAll_iff.mp ih.parts.2.2 _ member
  | bound _ limit ih =>
      have inBound := ih.parts.2.1
      rcases limit with upper | lower
      · rw [upper] at inBound
        exact inBound
      · rw [lower] at inBound
        exact inBound

theorem formed_bounds {params : List TypeParam} (formed : ∀ param ∈ params, param.Formed allowed) :
    ∀ type ∈ params.flatMap TypeParam.bounds, type.Formed allowed := by
  intro type member
  obtain ⟨param, stored, inner⟩ := List.mem_flatMap.mp member
  exact (formed param stored).bounds type inner

theorem formed_parameters {parameters : List Parameter}
    (formed : ∀ parameter ∈ parameters, parameter.Formed allowed) :
    ∀ type ∈ parameters.map Parameter.type, type.Formed allowed := by
  intro type member
  obtain ⟨parameter, stored, rfl⟩ := List.mem_map.mp member
  exact (formed parameter stored).type

theorem Member.Formed.types {member : Member} (formed : member.Formed allowed) :
    ∀ type ∈ member.types, type.Formed allowed := by
  cases member with
  | constructor item =>
      intro type listed
      rcases List.mem_append.mp listed with front | thrown
      · rcases List.mem_append.mp front with bound | parameter
        · exact formed_bounds formed.typeParams type bound
        · exact formed_parameters formed.parameters type parameter
      · exact formed.throws type thrown
  | method item =>
      intro type listed
      rcases List.mem_append.mp listed with front | thrown
      · rcases List.mem_append.mp front with bound | own
        · exact formed_bounds formed.typeParams type bound
        · rcases List.mem_cons.mp own with rfl | parameter
          · exact formed.returnType
          · exact formed_parameters formed.parameters type parameter
      · exact formed.throws type thrown
  | field item =>
      intro type listed
      rw [List.mem_singleton.mp listed]
      exact formed.type

theorem ClassDecl.Formed.types {cls : ClassDecl} (formed : cls.Formed allowed) :
    ∀ type ∈ cls.types, type.Formed allowed := by
  intro type listed
  rcases List.mem_append.mp listed with declared | below
  · rcases List.mem_append.mp declared with front | interface
    · rcases List.mem_append.mp front with bound | superclass
      · exact formed_bounds formed.typeParams type bound
      · exact formed.superclass type (Option.mem_toList.mp superclass)
    · exact formed.interfaces type interface
  · obtain ⟨member, stored, inner⟩ := List.mem_flatMap.mp below
    exact (formed.members member stored).types type inner

theorem Api.Formed.class {api : Api} (formed : api.Formed allowed) :
    ∀ cls ∈ api.classes, cls.item.Formed allowed := by
  intro cls stored
  obtain ⟨package, inApi, inPackage⟩ := List.mem_flatMap.mp stored
  exact (formed.packages package inApi).classes cls inPackage

theorem Api.Formed.mentions {api : Api} (formed : api.Formed allowed) {type : TypeRef}
    (mentioned : api.Mentions type) : type.Formed allowed := by
  obtain ⟨cls, stored, declared, listed, part⟩ := mentioned
  exact ((formed.class cls stored).types declared listed).part part

namespace Compare

/-! ## What is reported of types -/

/-- The finding that shows two texts of types, if they differ. -/
def Spot.textChange (spot : Spot) (lead before after : String) : List Finding :=
  if before = after then []
  else [spot.finding .changedType (lead ++ before ++ " to " ++ after)]

/-- What a comparison by texts reports of the own types of a member. -/
def typeChange (file : String) (cls : ClassDecl) (was now : Located Member) : List Finding :=
  let spot := memberSpot file cls now
  match was.item, now.item with
  | .method before, .method after =>
      spot.textChange ("Method " ++ spot.target ++ " has changed return type from ")
        before.returnType.display after.returnType.display
  | .field before, .field after =>
      spot.textChange ("Field " ++ spot.target ++ " has changed type from ") before.type.display
        after.type.display
  | _, _ => []

/-- What a comparison by texts reports of types at a visit: something at members only. -/
def Visit.typeChange (file : String) : Visit → List Finding
  | keptMember _ _ found was now => Compare.typeChange file found was now
  | _ => []

def typeFindings (found : List Finding) : List Finding :=
  found.filter fun finding => finding.issue == .changedType

theorem typeFindings_append (first second : List Finding) :
    typeFindings (first ++ second) = typeFindings first ++ typeFindings second := by
  simp [typeFindings]

theorem typeFindings_none {spot : Spot} {issues : List Issue} {found : List Finding}
    (reports : spot.Reports issues found) (other : .changedType ∉ issues) :
    typeFindings found = [] :=
  reports.ofIssue_eq_nil other

theorem typeFindings_textChange (spot : Spot) (lead : String) {before after : TypeRef}
    (alike : before.sameShape after = true ↔ before.display = after.display) :
    typeFindings (spot.findingIf (!before.sameShape after) .changedType
      (lead ++ before.display ++ " to " ++ after.display)) =
      spot.textChange lead before.display after.display := by
  by_cases same : before.display = after.display
  · rw [Spot.textChange, if_pos same, alike.mpr same]
    rfl
  · have differ : before.sameShape after = false :=
      Bool.eq_false_iff.mpr fun shapes => same (alike.mp shapes)
    rw [Spot.textChange, if_neg same, differ]
    rfl

section Members

variable (file : String) (cls : ClassDecl)

theorem typeFindings_method (line line' : Nat) {before after : Method}
    (alike : before.returnType.sameShape after.returnType = true ↔
      before.returnType.display = after.returnType.display) :
    typeFindings (methodFindings file line' cls before after) =
      typeChange file cls ⟨line, .method before⟩ ⟨line', .method after⟩ := by
  have result := typeFindings_none (reports_result (memberSpot file cls ⟨line', .method after⟩)
    (cls.qualifiedName ++ "." ++ after.name) before after) (by decide)
  simp only [methodFindings, typeFindings_append]
  rw [typeFindings_none (reports_scope _ _ _ _) (by decide),
    typeFindings_none (reports_static _ _ _ _) (by decide),
    typeFindings_none (Spot.reports_findingIf _ _ .changedFinal _) (by decide),
    typeFindings_none (Spot.reports_findingIf _ _ .changedAbstract _) (by decide),
    typeFindings_none (reports_throws _ _ _ _) (by decide),
    typeFindings_none (reports_parameters _ _ _ _) (by decide)]
  simp only [List.nil_append, List.append_nil]
  rw [typeFindings_textChange _ _ alike]
  exact (congrArg _ result).trans (List.append_nil _)

theorem typeFindings_field (line line' : Nat) {before after : Field}
    (alike : before.type.sameShape after.type = true ↔
      before.type.display = after.type.display) :
    typeFindings (fieldFindings file line' cls before after) =
      typeChange file cls ⟨line, .field before⟩ ⟨line', .field after⟩ := by
  simp only [fieldFindings, typeFindings_append]
  rw [typeFindings_none (reports_scope _ _ _ _) (by decide),
    typeFindings_none (reports_static _ _ _ _) (by decide),
    typeFindings_none (Spot.reports_findingIf _ _ .changedFinal _) (by decide),
    typeFindings_none (reports_value _ _ _) (by decide),
    typeFindings_none (reports_nullness _ _ _ _) (by decide)]
  simp only [List.nil_append, List.append_nil]
  exact typeFindings_textChange _ _ alike

/-- Members whose types are of one shape where they are displayed alike are reported by texts. -/
theorem typeFindings_member {was now : Located Member}
    (alike : ∀ before ∈ was.item.types, ∀ after ∈ now.item.types,
      (before.sameShape after = true ↔ before.display = after.display)) :
    typeFindings (memberFindings file cls was now) = typeChange file cls was now := by
  obtain ⟨line, before⟩ := was
  obtain ⟨line', after⟩ := now
  cases before <;> cases after <;> try rfl
  case constructor.constructor before after =>
    exact typeFindings_none (((reports_scope _ _ _ _).append (reports_throws _ _ _ _)).append
      (reports_parameters _ _ _ _)) (by decide)
  case method.method before after =>
    exact typeFindings_method file cls line line'
      (alike _ (by simp [Member.types]) _ (by simp [Member.types]))
  case field.field before after =>
    exact typeFindings_field file cls line line'
      (alike _ (List.mem_singleton_self _) _ (List.mem_singleton_self _))

end Members

theorem typeFindings_single {found : Finding} (other : found.issue ≠ .changedType) :
    typeFindings [found] = [] := by
  simp [typeFindings, other]

/-- The types of a member that an API holds are mentioned by it. -/
theorem mentions_of_member {api : Api} {cls : Located ClassDecl} {member : Located Member}
    (inApi : cls ∈ api.classes) (stored : member ∈ cls.item.members.values) :
    ∀ type ∈ member.item.types, api.Mentions type := by
  intro type listed
  refine ⟨cls, inApi, type, ?_, .whole⟩
  exact List.mem_append_right _ (List.mem_flatMap.mpr ⟨member, stored, listed⟩)

theorem typeFindings_visit {previous current : Api}
    (alike : ∀ before after, previous.Mentions before → current.Mentions after →
      (before.sameShape after = true ↔ before.display = after.display))
    {visit : Visit} (listed : visit.Of previous current) (sources : Sources) :
    typeFindings (visit.findings sources) = visit.typeChange sources.current := by
  cases listed with
  | lostPackage stored missing =>
      rw [Visit.findings]
      split
      · rfl
      · exact typeFindings_single (by simp [Finding.warning])
  | lostClass packageStored packageFound stored missing =>
      exact typeFindings_single (by simp [removedClass, Finding.warning])
  | keptClass packageStored packageFound stored kept =>
      exact typeFindings_none (reports_declaration _ _ _) (by decide)
  | @lostMember _ _ _ was classKept stored missing =>
      refine typeFindings_single ?_
      obtain ⟨line, item⟩ := was
      cases item <;> simp [removedMember, Finding.warning]
  | keptMember classKept stored kept =>
      cases classKept with
      | keptClass packageStored packageFound classStored classFound =>
          refine typeFindings_member _ _ fun before inWas after inNow => alike before after ?_ ?_
          · exact mentions_of_member (List.mem_flatMap.mpr ⟨_, packageStored, classStored⟩) stored
              before inWas
          · have inApi := OrderedMap.mem_values_of_get? packageFound
            have inPackage := OrderedMap.mem_values_of_get? classFound
            exact mentions_of_member (List.mem_flatMap.mpr ⟨_, inApi, inPackage⟩)
              (OrderedMap.mem_values_of_get? kept) after inNow

end Compare

namespace Signature

open Compare

variable {source text source' text' : String} {requested requested' : Option NullMode}
  {previous current : Api}

/-- Types that texts mention have one shape exactly when they are displayed alike, and then one
erasure.  So the findings about changed types are those of a comparison by texts. -/
theorem read_types (old : read source text requested = .ok previous)
    (new : read source' text' requested' = .ok current) :
    (∀ before after, previous.Mentions before → current.Mentions after →
      (before.sameShape after = true ↔ before.shape = after.shape) ∧
      (before.sameShape after = true ↔ before.display = after.display) ∧
      (before.sameShape after = true → before.erasure = after.erasure)) ∧
    ∀ report, previous.compare current = .ok report →
      typeFindings report.findings =
        (visits previous current).flatMap (Visit.typeChange current.source) := by
  have shapes : ∀ before after, previous.Mentions before → current.Mentions after →
      (before.shape = after.shape ↔ before.display = after.display) := by
    intro before after mentioned mentioned'
    have idents : Identifiers AnyIdentifier := fun _ => id
    exact (TypeRef.display_eq_iff idents ((formed_of_read old).1.mentions mentioned)
      ((formed_of_read new).1.mentions mentioned')).symm
  refine ⟨fun before after mentioned mentioned' => ⟨before.sameShape_iff after, ?_, ?_⟩, ?_⟩
  · exact (before.sameShape_iff after).trans (shapes before after mentioned mentioned')
  · intro same
    exact TypeRef.erasure_eq_of_shape ((before.sameShape_iff after).mp same)
  · intro report run
    obtain ⟨_, rfl⟩ := (Api.compare_eq_ok_iff _ _ _).mp run
    refine (congrArg typeFindings (findings_visits previous current)).trans ?_
    rw [typeFindings, List.filter_flatMap]
    refine List.flatMap_congr fun visit member => typeFindings_visit ?_ (of_mem_visits member) _
    intro before after mentioned mentioned'
    exact (before.sameShape_iff after).trans (shapes before after mentioned mentioned')

theorem eq_ok_of_toOption {ε α : Type} {run : Except ε α} {result : α}
    (found : run.toOption = some result) : run = .ok result := by
  cases run with
  | error fault => cases found
  | ok value => exact congrArg Except.ok (Option.some.inj found)

/-- A class with a method and a field of the given types. -/
def typedText (result field : String) : String :=
  "package p \x7b\n  class C \x7b\n    method " ++ result ++ " f();\n    field " ++ field ++
    " x;\n  \x7d\n\x7d\n"

theorem read_types_typedText : ∃ previous current report,
    read "old.txt" (typedText "a.Map<?, ? super T[]>[]" "List<T>") none = .ok previous ∧
    read "new.txt" (typedText "a.Map<?, ? super T>[][]" "List<@NonNull T>") none = .ok current ∧
    previous.compare current = .ok report ∧
    (∀ before after, previous.Mentions before → current.Mentions after →
      (before.sameShape after = true ↔ before.display = after.display)) ∧
    (typeFindings report.findings).map Finding.message =
      ["Method p.C.f() has changed return type from a.Map<?, ? super T[]>[] to " ++
        "a.Map<?, ? super T>[][]"] := by
  have run : ((read "old.txt" (typedText "a.Map<?, ? super T[]>[]" "List<T>") none).toOption.bind
      fun previous => (read "new.txt" (typedText "a.Map<?, ? super T>[][]" "List<@NonNull T>")
        none).toOption.bind fun current => (previous.compare current).toOption.map fun _ =>
          ((visits previous current).flatMap (Visit.typeChange current.source)).map
            Finding.message) =
      some ["Method p.C.f() has changed return type from a.Map<?, ? super T[]>[] to " ++
        "a.Map<?, ? super T>[][]"] := by
    decide +kernel
  obtain ⟨previous, old, run'⟩ := Option.bind_eq_some_iff.mp run
  obtain ⟨current, new, run''⟩ := Option.bind_eq_some_iff.mp run'
  obtain ⟨report, compared, messages⟩ := Option.map_eq_some_iff.mp run''
  have whole := eq_ok_of_toOption old
  have whole' := eq_ok_of_toOption new
  have compared' := eq_ok_of_toOption compared
  have types := read_types whole whole'
  refine ⟨previous, current, report, whole, whole', compared', ?_, ?_⟩
  · exact fun before after mentioned mentioned' => (types.1 before after mentioned mentioned').2.1
  · rw [types.2 report compared']
    exact messages

end Signature

end ApiCompat
