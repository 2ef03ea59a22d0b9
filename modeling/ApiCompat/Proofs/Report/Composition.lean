import ApiCompat.CommandLine.Run
import ApiCompat.Proofs.Report.Policy
import Mathlib.Data.List.Forall2

/-!
# Policies one after another

Two policies in a row act like their union, whichever comes first, and a
policy that is applied again changes nothing (`Policy.apply_apply`).  What a
policy leaves of a report are the findings that it does not suppress, in their
order, counted as they are gone through one by one.
-/

set_option autoImplicit false

namespace ApiCompat

/-! ## Counting -/

def Report.push (report : Report) (finding : Finding) : Report :=
  match finding.severity with
  | .error =>
      { report with findings := report.findings ++ [finding], errors := report.errors + 1 }
  | .warning =>
      { report with findings := report.findings ++ [finding], warnings := report.warnings + 1 }

theorem Report.push_ofFindings (previous current : String) (findings : List Finding)
    (finding : Finding) :
    (ofFindings previous current findings).push finding =
      ofFindings previous current (findings ++ [finding]) := by
  cases severity : finding.severity <;> simp [push, ofFindings, List.countP_append, severity]

/-- Every finding is counted once, as an error or as a warning. -/
theorem Report.errors_add_warnings (previous current : String) (findings : List Finding) :
    (ofFindings previous current findings).errors +
      (ofFindings previous current findings).warnings = findings.length := by
  have warnings : ∀ finding ∈ findings,
      (finding.severity == .warning) = true ↔ decide ¬(finding.severity == .error) = true := by
    intro finding _
    cases finding.severity <;> decide
  simp only [ofFindings]
  rw [List.countP_congr warnings, ← List.length_eq_countP_add_countP]

namespace Policy

/-! ## One finding -/

/-- Whether the policy makes errors of findings with this code. -/
def Promotes (policy : Policy) (finding : Finding) : Prop :=
  policy.warningsAsErrors = true ∨ finding.code ∈ policy.errors

/-- A finding with the severity that the policy gives it, and otherwise as before. -/
structure Grades (policy : Policy) (before after : Finding) : Prop where
  kept : after = { before with severity := after.severity }
  error_iff : after.severity = .error ↔ before.severity = .error ∨ policy.Promotes before

variable {policy other : Policy} {finding : Finding}

theorem severityOf_promoted (promoted : policy.Promotes finding) :
    policy.severityOf finding = .error := by
  unfold Promotes at promoted
  simp [severityOf, promoted]

theorem severityOf_kept (kept : ¬policy.Promotes finding) :
    policy.severityOf finding = finding.severity := by
  unfold Promotes at kept
  simp only [not_or, Bool.not_eq_true] at kept
  simp [severityOf, kept.1, kept.2]

theorem promotes_merge :
    (policy.merge other).Promotes finding ↔ policy.Promotes finding ∨ other.Promotes finding := by
  simp only [Promotes, merge, Bool.or_eq_true, List.mem_append]
  exact or_or_or_comm

/-- A policy looks at the code of a finding alone, so the severity after two policies is that of
their union. -/
theorem severityOf_merge :
    other.severityOf { finding with severity := policy.severityOf finding } =
      (policy.merge other).severityOf finding := by
  by_cases second : other.Promotes finding
  · rw [severityOf_promoted (promotes_merge.mpr (.inr second))]
    exact severityOf_promoted second
  · by_cases first : policy.Promotes finding
    · rw [severityOf_promoted (promotes_merge.mpr (.inl first)), ← severityOf_promoted first]
      exact severityOf_kept second
    · have neither : ¬(policy.merge other).Promotes finding := by
        rw [promotes_merge]
        exact not_or.mpr ⟨first, second⟩
      rw [severityOf_kept neither, ← severityOf_kept first]
      exact severityOf_kept second

theorem grade?_suppressed (suppressed : finding.code ∈ policy.suppress) :
    policy.grade? finding = none := by
  simp [grade?, suppressed]

theorem grade?_reported (reported : finding.code ∉ policy.suppress) :
    policy.grade? finding = some { finding with severity := policy.severityOf finding } := by
  simp [grade?, reported]

theorem grade?_merge :
    (policy.grade? finding).bind other.grade? = (policy.merge other).grade? finding := by
  by_cases first : finding.code ∈ policy.suppress
  · rw [grade?_suppressed first, grade?_suppressed (List.mem_append_left _ first)]
    rfl
  · rw [grade?_reported first, Option.bind_some]
    by_cases second : finding.code ∈ other.suppress
    · have either : finding.code ∈ (policy.merge other).suppress :=
        List.mem_append_right _ second
      rw [grade?_suppressed either]
      exact grade?_suppressed second
    · have neither : finding.code ∉ (policy.merge other).suppress := by
        simp [merge, first, second]
      rw [grade?_reported neither, ← severityOf_merge]
      exact grade?_reported second

/-- Policies that suppress and promote the same codes grade alike, however they list them. -/
theorem grade?_congr (suppress : ∀ code, code ∈ policy.suppress ↔ code ∈ other.suppress)
    (promotes : ∀ finding, policy.Promotes finding ↔ other.Promotes finding) :
    policy.grade? = other.grade? := by
  funext finding
  by_cases suppressed : finding.code ∈ policy.suppress
  · rw [grade?_suppressed suppressed, grade?_suppressed ((suppress _).mp suppressed)]
  · have severity : policy.severityOf finding = other.severityOf finding := by
      by_cases promoted : policy.Promotes finding
      · rw [severityOf_promoted promoted, severityOf_promoted ((promotes _).mp promoted)]
      · rw [severityOf_kept promoted, severityOf_kept (mt (promotes _).mpr promoted)]
    rw [grade?_reported suppressed, grade?_reported (mt (suppress _).mpr suppressed), severity]

theorem severityOf_eq_error_iff :
    policy.severityOf finding = .error ↔ finding.severity = .error ∨ policy.Promotes finding := by
  by_cases promoted : policy.Promotes finding
  · simp [severityOf_promoted promoted, promoted]
  · simp [severityOf_kept promoted, promoted]

theorem grades_severityOf :
    policy.Grades finding { finding with severity := policy.severityOf finding } :=
  ⟨rfl, severityOf_eq_error_iff⟩

/-! ## Whole reports -/

structure GradesReport (policy : Policy) (report graded : Report) : Prop where
  previous : graded.previous = report.previous
  current : graded.current = report.current
  findings : List.Forall₂ policy.Grades
    (report.findings.filter fun finding => decide (finding.code ∉ policy.suppress)) graded.findings
  errors : graded.errors = (graded.findings.filter fun finding => finding.severity == .error).length
  warnings :
    graded.warnings = (graded.findings.filter fun finding => finding.severity == .warning).length
  counted : graded.errors + graded.warnings = graded.findings.length

/-- The report with what the policy leaves of a finding. -/
def pushGraded (policy : Policy) (report : Report) (finding : Finding) : Report :=
  match policy.grade? finding with
  | some graded => report.push graded
  | none => report

/-- The findings under the policy, gone through one by one and counted on the way. -/
def applyEach (policy : Policy) (report : Report) : Report :=
  report.findings.foldl policy.pushGraded
    { previous := report.previous, current := report.current, findings := [], errors := 0,
      warnings := 0 }

variable (policy other)

theorem grades_filterMap (findings : List Finding) :
    List.Forall₂ policy.Grades
      (findings.filter fun finding => decide (finding.code ∉ policy.suppress))
      (findings.filterMap policy.grade?) := by
  induction findings with
  | nil => exact .nil
  | cons finding findings ih =>
      by_cases suppressed : finding.code ∈ policy.suppress
      · rw [List.filterMap_cons_none (grade?_suppressed suppressed),
          List.filter_cons_of_neg (by simp [suppressed])]
        exact ih
      · rw [List.filterMap_cons_some (grade?_reported suppressed),
          List.filter_cons_of_pos (by simp [suppressed])]
        exact .cons grades_severityOf ih

theorem gradesReport_apply (report : Report) :
    policy.GradesReport report (policy.apply report) where
  previous := rfl
  current := rfl
  findings := policy.grades_filterMap report.findings
  errors := List.countP_eq_length_filter
  warnings := List.countP_eq_length_filter
  counted := Report.errors_add_warnings _ _ _

theorem pushGraded_ofFindings (previous current : String) (before : List Finding)
    (finding : Finding) :
    policy.pushGraded (Report.ofFindings previous current before) finding =
      Report.ofFindings previous current (before ++ (policy.grade? finding).toList) := by
  unfold pushGraded
  cases policy.grade? finding with
  | none => rw [Option.toList_none, List.append_nil]
  | some graded => exact Report.push_ofFindings previous current before graded

theorem foldl_pushGraded (previous current : String) (findings before : List Finding) :
    findings.foldl policy.pushGraded (Report.ofFindings previous current before) =
      Report.ofFindings previous current (before ++ findings.filterMap policy.grade?) := by
  induction findings generalizing before with
  | nil => rw [List.foldl_nil, List.filterMap_nil, List.append_nil]
  | cons finding findings ih =>
      rw [List.foldl_cons, pushGraded_ofFindings, ih, List.append_assoc]
      cases made : policy.grade? finding with
      | none => rw [List.filterMap_cons_none made]; rfl
      | some graded => rw [List.filterMap_cons_some made]; rfl

theorem applyEach_eq_apply (report : Report) : policy.applyEach report = policy.apply report :=
  policy.foldl_pushGraded report.previous report.current report.findings []

theorem apply_merge (report : Report) :
    other.apply (policy.apply report) = (policy.merge other).apply report := by
  have grade : (fun finding => (policy.grade? finding).bind other.grade?) =
      (policy.merge other).grade? := funext fun _ => grade?_merge
  have findings : (report.findings.filterMap policy.grade?).filterMap other.grade? =
      report.findings.filterMap (policy.merge other).grade? := by
    rw [List.filterMap_filterMap, grade]
  exact congrArg (Report.ofFindings report.previous report.current) findings

variable {policy other}

theorem apply_congr (suppress : ∀ code, code ∈ policy.suppress ↔ code ∈ other.suppress)
    (promotes : ∀ finding, policy.Promotes finding ↔ other.Promotes finding) (report : Report) :
    policy.apply report = other.apply report := by
  rw [apply, apply, grade?_congr suppress promotes]

theorem apply_merge_self (report : Report) :
    (policy.merge policy).apply report = policy.apply report :=
  apply_congr (fun _ => by simp [merge]) (fun _ => promotes_merge.trans or_self_iff) report

theorem apply_merge_comm (report : Report) :
    (policy.merge other).apply report = (other.merge policy).apply report := by
  refine apply_congr (fun code => ?_) (fun finding => ?_) report
  · simp only [merge, List.mem_append]
    exact or_comm
  · rw [promotes_merge, promotes_merge]
    exact or_comm

end Policy

/-- The policy that the options of a command line state, without that of the settings. -/
def CommandLine.CheckArguments.ownPolicy (arguments : CheckArguments) : Policy where
  suppress := arguments.suppress
  errors := arguments.errors
  warningsAsErrors := arguments.warningsAsErrors

/-- Policies act one after another like their union, as when a command line adds to the policy of
the settings; the order does not matter, and neither does applying one twice. -/
theorem Policy.apply_apply (policy other : Policy) (report : Report) :
    other.apply (policy.apply report) = (policy.merge other).apply report ∧
    policy.apply (policy.apply report) = policy.apply report ∧
    other.apply (policy.apply report) = policy.apply (other.apply report) ∧
    (∀ (settings : Settings) (arguments : CommandLine.CheckArguments),
      (CommandLine.overrideSettings settings arguments).policy.apply report =
        arguments.ownPolicy.apply (settings.policy.apply report)) ∧
    policy.GradesReport report (policy.apply report) ∧
    policy.apply report = policy.applyEach report := by
  refine ⟨apply_merge policy other report, ?_, ?_, fun settings arguments => ?_,
    policy.gradesReport_apply report, (policy.applyEach_eq_apply report).symm⟩
  · rw [apply_merge, apply_merge_self]
  · rw [apply_merge, apply_merge, apply_merge_comm]
  · exact (apply_merge settings.policy arguments.ownPolicy report).symm

end ApiCompat
