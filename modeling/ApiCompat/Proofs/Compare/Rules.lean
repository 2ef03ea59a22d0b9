import ApiCompat.Compare.Api

/-!
# Which issues a rule can report

Every finding of a rule is made at the spot of the rule, and is of one of a
few issues (`Spot.Reports`).  What is said of findings by their issue, code or
place follows from that, without looking at the rules again.
-/

set_option autoImplicit false

namespace ApiCompat.Compare

/-- Each of the findings is made at the spot and is of one of the issues. -/
def Spot.Reports (spot : Spot) (issues : List Issue) (found : List Finding) : Prop :=
  ∀ finding ∈ found, ∃ issue ∈ issues, ∃ message, finding = spot.finding issue message

namespace Spot

variable {spot : Spot} {issues others : List Issue} {first second : List Finding}

theorem reports_nil (spot : Spot) (issues : List Issue) : spot.Reports issues [] := by
  intro finding member
  cases member

theorem Reports.append (inFirst : spot.Reports issues first)
    (inSecond : spot.Reports others second) :
    spot.Reports (issues ++ others) (first ++ second) := by
  intro finding member
  rcases List.mem_append.mp member with left | right
  · obtain ⟨issue, listed, message, made⟩ := inFirst finding left
    exact ⟨issue, List.mem_append_left _ listed, message, made⟩
  · obtain ⟨issue, listed, message, made⟩ := inSecond finding right
    exact ⟨issue, List.mem_append_right _ listed, message, made⟩

theorem Reports.flatMap {α : Type} {items : List α} {block : α → List Finding}
    (inBlocks : ∀ item, spot.Reports issues (block item)) :
    spot.Reports issues (items.flatMap block) := by
  intro finding member
  obtain ⟨item, _, inBlock⟩ := List.mem_flatMap.mp member
  exact inBlocks item finding inBlock

theorem Reports.mono (reports : spot.Reports issues first) (more : issues ⊆ others) :
    spot.Reports others first := by
  intro finding member
  obtain ⟨issue, listed, made⟩ := reports finding member
  exact ⟨issue, more listed, made⟩

theorem reports_findingIf (spot : Spot) (condition : Bool) (issue : Issue) (message : String) :
    spot.Reports [issue] (spot.findingIf condition issue message) := by
  intro finding member
  cases condition with
  | false => cases member
  | true => exact ⟨issue, List.mem_singleton_self issue, message, List.mem_singleton.mp member⟩

/-- Findings of other issues do not pass a test that fails on all of theirs. -/
theorem Reports.filter_eq_nil {test : Finding → Bool} (reports : spot.Reports issues first)
    (fails : ∀ issue ∈ issues, ∀ message, test (spot.finding issue message) = false) :
    first.filter test = [] := by
  rw [List.filter_eq_nil_iff]
  intro finding member passes
  obtain ⟨issue, listed, message, rfl⟩ := reports finding member
  rw [fails issue listed message] at passes
  cases passes

/-- None of the findings is of an issue that is not among theirs. -/
theorem Reports.ofIssue_eq_nil {issue : Issue} (reports : spot.Reports issues first)
    (other : issue ∉ issues) : first.filter (fun finding => finding.issue == issue) = [] := by
  apply reports.filter_eq_nil
  intro listed member message
  have differs : listed ≠ issue := fun same => other (same ▸ member)
  simp [Spot.finding, Finding.warning, differs]

end Spot

/-! ## Single rules -/

variable (spot : Spot)

theorem reports_scope (what : String) (was now : Modifiers) :
    spot.Reports [.changedScope] (scopeFindings spot what was now) :=
  spot.reports_findingIf _ _ _

theorem reports_static (what : String) (was now : Modifiers) :
    spot.Reports [.changedStatic] (staticFindings spot what was now) :=
  spot.reports_findingIf _ _ _

theorem reports_throws (what : String) (was now : List TypeRef) :
    spot.Reports [.changedThrows] (throwsFindings spot what was now) :=
  Spot.Reports.flatMap fun _ => spot.reports_findingIf _ _ _

theorem reports_value (was now : Option String) :
    spot.Reports [.changedValue] (valueFindings spot was now) := by
  cases was with
  | none => exact spot.reports_nil _
  | some before =>
      cases now with
      | none => exact spot.reports_nil _
      | some after => exact spot.reports_findingIf _ _ _

theorem reports_nullness (subject position : String) (change : Option Regression) :
    spot.Reports [.invalidNullConversion] (nullnessFindings spot subject position change) := by
  cases change with
  | none => exact spot.reports_nil _
  | some regression =>
      intro finding member
      exact ⟨_, List.mem_singleton_self _, _, List.mem_singleton.mp member⟩

theorem reports_parameters (owner : String) (was now : List Parameter) :
    spot.Reports [.invalidNullConversion] (parameterFindings spot owner was now) :=
  Spot.Reports.flatMap fun _ => reports_nullness spot _ _ _

theorem reports_superclass (was now : ClassDecl) :
    spot.Reports [.changedSuperclass] (superclassFindings spot was now) :=
  spot.reports_findingIf _ _ _

theorem reports_interfaces (was now : ClassDecl) :
    spot.Reports [.removedInterface] (interfaceFindings spot was now) :=
  Spot.Reports.flatMap fun _ => spot.reports_findingIf _ _ _

/-! ## Declarations -/

def declarationIssues : List Issue :=
  [.changedScope, .changedStatic, .changedFinal, .changedAbstract, .changedSuperclass,
    .removedInterface]

theorem reports_shape (was now : ClassDecl) :
    spot.Reports declarationIssues (shapeFindings spot was now) := by
  have parent : spot.Reports [.changedSuperclass]
      (if now.kind == .classKind then superclassFindings spot was now else []) := by
    cases now.kind == .classKind with
    | true => exact reports_superclass spot was now
    | false => exact spot.reports_nil _
  exact (((((reports_scope spot _ _ _).append (reports_static spot _ _ _)).append
    (spot.reports_findingIf _ _ _)).append (spot.reports_findingIf _ _ _)).append parent).append
    (reports_interfaces spot _ _)

theorem reports_declaration (was now : ClassDecl) :
    spot.Reports (.changedClass :: declarationIssues) (declarationFindings spot was now) := by
  intro finding member
  by_cases kind : was.kind = now.kind
  · rw [declarationFindings, if_pos kind] at member
    obtain ⟨issue, listed, made⟩ := reports_shape spot was now finding member
    exact ⟨issue, List.mem_cons_of_mem _ listed, made⟩
  · rw [declarationFindings, if_neg kind] at member
    exact ⟨_, List.mem_cons_self, _, List.mem_singleton.mp member⟩

/-! ## Members -/

/-- What findings about a member name; `owner` is the qualified name of its class. -/
def memberTarget (owner : String) : Member → String
  | .constructor item => callSignature owner item.parameters
  | .method item => owner ++ "." ++ item.signature
  | .field item => owner ++ "." ++ item.name

def memberSpot (file : String) (cls : ClassDecl) (now : Located Member) : Spot where
  file := file
  line := now.line
  target := memberTarget cls.qualifiedName now.item

def plainIssues : List Issue :=
  [.changedScope, .changedStatic, .changedFinal, .changedAbstract, .changedType, .changedThrows,
    .changedValue]

def resultFindings (spot : Spot) (label : String) (was now : Method) : List Finding :=
  if now.returnType.isVoid then []
  else nullnessFindings spot ("method " ++ label) "method return"
    (regression? was.returnType.nullness now.returnType.nullness .result)

theorem reports_result (label : String) (was now : Method) :
    spot.Reports [.invalidNullConversion] (resultFindings spot label was now) := by
  rw [resultFindings]
  cases now.returnType.isVoid with
  | true => exact spot.reports_nil _
  | false => exact reports_nullness spot _ _ _

section Members

variable (file : String) (line : Nat) (cls : ClassDecl)

/-- What is reported of a constructor: plain issues and then the nullness of its parameters. -/
theorem constructorFindings_split (was now : Constructor) :
    ∃ front, (memberSpot file cls ⟨line, .constructor now⟩).Reports plainIssues front ∧
      constructorFindings file line cls was now = front ++
        parameterFindings (memberSpot file cls ⟨line, .constructor now⟩) cls.qualifiedName
          was.parameters now.parameters := by
  refine ⟨_, ?_, rfl⟩
  apply ((reports_scope _ _ _ _).append (reports_throws _ _ _ _)).mono
  decide

/-- What is reported of a method: plain issues, then the nullness of what it returns, then that
of its parameters. -/
theorem methodFindings_split (was now : Method) :
    ∃ front, (memberSpot file cls ⟨line, .method now⟩).Reports plainIssues front ∧
      methodFindings file line cls was now = front ++
        resultFindings (memberSpot file cls ⟨line, .method now⟩)
          (cls.qualifiedName ++ "." ++ now.name) was now ++
        parameterFindings (memberSpot file cls ⟨line, .method now⟩)
          (cls.qualifiedName ++ "." ++ now.name) was.parameters now.parameters := by
  refine ⟨_, ?_, rfl⟩
  apply ((((((reports_scope _ _ _ _).append (reports_static _ _ _ _)).append
    (Spot.reports_findingIf _ _ _ _)).append (Spot.reports_findingIf _ _ _ _)).append
    (Spot.reports_findingIf _ _ _ _)).append (reports_throws _ _ _ _)).mono
  decide

/-- What is reported of a field: plain issues and then the nullness of what it holds. -/
theorem fieldFindings_split (was now : Field) :
    ∃ front, (memberSpot file cls ⟨line, .field now⟩).Reports plainIssues front ∧
      fieldFindings file line cls was now = front ++
        nullnessFindings (memberSpot file cls ⟨line, .field now⟩)
          ("field " ++ (cls.qualifiedName ++ "." ++ now.name)) "field"
          (regression? was.type.nullness now.type.nullness .result) := by
  refine ⟨_, ?_, rfl⟩
  apply (((((reports_scope _ _ _ _).append (reports_static _ _ _ _)).append
    (Spot.reports_findingIf _ _ _ _)).append (Spot.reports_findingIf _ _ _ _)).append
    (reports_value _ _ _)).mono
  decide

/-- Findings about a member name that member and stand at its line. -/
theorem reports_member (was now : Located Member) :
    (memberSpot file cls now).Reports (plainIssues ++ [.invalidNullConversion])
      (memberFindings file cls was now) := by
  obtain ⟨_, before⟩ := was
  obtain ⟨line, after⟩ := now
  cases before <;> cases after <;> try exact Spot.reports_nil _ _
  case constructor.constructor before after =>
    obtain ⟨front, plain, whole⟩ := constructorFindings_split file line cls before after
    simp only [memberFindings, whole]
    exact plain.append (reports_parameters _ _ _ _)
  case method.method before after =>
    obtain ⟨front, plain, whole⟩ := methodFindings_split file line cls before after
    simp only [memberFindings, whole]
    apply ((plain.append (reports_result _ _ _ _)).append (reports_parameters _ _ _ _)).mono
    decide
  case field.field before after =>
    obtain ⟨front, plain, whole⟩ := fieldFindings_split file line cls before after
    simp only [memberFindings, whole]
    exact plain.append (reports_nullness _ _ _ _)

end Members

/-! ## Severities -/

theorem Spot.Reports.warnings {spot : Spot} {issues : List Issue} {found : List Finding}
    (reports : spot.Reports issues found) : ∀ finding ∈ found, finding.severity = .warning := by
  intro finding member
  obtain ⟨issue, _, message, rfl⟩ := reports finding member
  rfl

theorem severity_removedMember (file : String) (cls : ClassDecl) (was : Located Member) :
    (removedMember file cls was).severity = .warning := by
  obtain ⟨line, item⟩ := was
  cases item <;> rfl

/-- Comparing finds warnings only; errors are made of them by a policy. -/
theorem severity_findings (previous current : Api) :
    ∀ finding ∈ findings previous current, finding.severity = .warning := by
  intro finding member
  obtain ⟨package, _, inPackage⟩ := List.mem_flatMap.mp member
  unfold packageOutcome at inPackage
  split at inPackage
  · obtain ⟨cls, _, inClass⟩ := List.mem_flatMap.mp inPackage
    unfold classOutcome at inClass
    split at inClass
    · rcases List.mem_append.mp inClass with declared | below
      · exact (reports_declaration _ _ _).warnings finding declared
      · obtain ⟨was, _, inMember⟩ := List.mem_flatMap.mp below
        unfold memberOutcome at inMember
        split at inMember
        · exact (reports_member _ _ _ _).warnings finding inMember
        · obtain rfl := List.mem_singleton.mp inMember
          exact severity_removedMember _ _ _
    · obtain rfl := List.mem_singleton.mp inClass
      rfl
  · split at inPackage
    · cases inPackage
    · obtain rfl := List.mem_singleton.mp inPackage
      rfl

/-! ## What findings about members depend on -/

/-- Members are compared under the name of their class and beside whether it is final. -/
theorem memberFindings_congr (file : String) {cls cls' : ClassDecl}
    (name : cls.qualifiedName = cls'.qualifiedName)
    (final : cls.modifiers.isFinal = cls'.modifiers.isFinal) (was now : Located Member) :
    memberFindings file cls was now = memberFindings file cls' was now := by
  obtain ⟨_, before⟩ := was
  obtain ⟨_, after⟩ := now
  cases before <;> cases after <;> try rfl
  case constructor.constructor before after =>
    simp only [memberFindings, constructorFindings, constructorTarget, name]
  case method.method before after =>
    simp only [memberFindings, methodFindings, name, final]
  case field.field before after =>
    simp only [memberFindings, fieldFindings, name]

theorem removedMember_congr (file : String) {cls cls' : ClassDecl}
    (name : cls.qualifiedName = cls'.qualifiedName) (was : Located Member) :
    removedMember file cls was = removedMember file cls' was := by
  simp only [removedMember, constructorTarget, name]

end ApiCompat.Compare
