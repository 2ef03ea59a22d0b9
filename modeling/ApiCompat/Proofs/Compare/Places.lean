import ApiCompat.Proofs.Compare.Visits

/-!
# Where findings are placed

Findings about what is missing stand in the file of the previous API, at the
line of what is missing; all others stand in the file of the current API, at
the line of the class or member whose change they report (`compare_placed`).
-/

set_option autoImplicit false

namespace ApiCompat.Compare

namespace Visit

/-- Whether the current API lacks what is visited. -/
def isLost : Visit → Bool
  | lostPackage _ | lostClass _ _ | lostMember _ _ _ => true
  | keptClass _ _ _ | keptMember _ _ _ _ _ => false

/-- What is lost is placed where it was, and what is kept where it is now. -/
def location (previous current : String) : Visit → Location
  | lostPackage was => { file := previous, line := was.line }
  | lostClass _ was => { file := previous, line := was.line }
  | keptClass _ _ now => { file := current, line := now.line }
  | lostMember _ _ was => { file := previous, line := was.line }
  | keptMember _ _ _ _ now => { file := current, line := now.line }

/-- The name under which findings mention what is visited. -/
def target : Visit → String
  | lostPackage was => was.item.name
  | lostClass _ was => was.item.qualifiedName
  | keptClass _ _ now => now.item.qualifiedName
  | lostMember _ cls was => memberTarget cls.qualifiedName was.item
  | keptMember _ _ found _ now => memberTarget found.qualifiedName now.item

/-- What can be reported at a visit. -/
def issues : Visit → List Issue
  | lostPackage _ => [.removedPackage]
  | lostClass _ _ => [.removedClass]
  | keptClass _ _ _ => .changedClass :: declarationIssues
  | lostMember _ _ was => [removalIssue was.item]
  | keptMember _ _ _ _ _ => plainIssues ++ [.invalidNullConversion]

def spot (sources : Sources) (visit : Visit) : Spot :=
  let location := visit.location sources.previous sources.current
  { file := location.file, line := location.line, target := visit.target }

end Visit

/-- A warning about what is visited, under an issue that can be reported there, placed at it. -/
structure PlacedAt (previous current : String) (visit : Visit) (finding : Finding) : Prop where
  severity : finding.severity = .warning
  code : finding.code = finding.issue.code
  issue : finding.issue ∈ visit.issues
  removal : isRemoval finding = visit.isLost
  target : finding.target = visit.target
  location : finding.location = visit.location previous current

theorem removedMember_eq (sources : Sources) (package : String) (cls : ClassDecl)
    (was : Located Member) :
    ∃ message, removedMember sources.previous cls was =
      ((Visit.lostMember package cls was).spot sources).finding (removalIssue was.item)
        message := by
  obtain ⟨line, item⟩ := was
  cases item <;> exact ⟨_, rfl⟩

/-- Every finding of a visit is made at what is visited. -/
theorem reports_visit (sources : Sources) (visit : Visit) :
    (visit.spot sources).Reports visit.issues (visit.findings sources) := by
  cases visit with
  | lostPackage was =>
      cases empty : was.item.classes.isEmpty with
      | true => simpa [Visit.findings, empty] using Spot.reports_nil _ _
      | false =>
          simp only [Visit.findings, empty, Bool.false_eq_true, if_false]
          exact Spot.reports_findingIf _ true _ _
  | lostClass package was => exact Spot.reports_findingIf _ true _ _
  | keptClass package was now => exact reports_declaration _ _ _
  | lostMember package cls was =>
      obtain ⟨message, made⟩ := removedMember_eq sources package cls was
      simp only [Visit.findings, made]
      exact Spot.reports_findingIf _ true _ _
  | keptMember package cls found was now => exact reports_member _ _ _ _

/-- Codes of removal are for what is lost. -/
theorem isRemoval_issues (visit : Visit) :
    ∀ issue ∈ visit.issues, (7 ≤ issue.code && issue.code ≤ 10) = visit.isLost := by
  cases visit with
  | lostPackage was | lostClass package was | keptClass package was now
  | keptMember package cls found was now =>
      simp only [Visit.issues, Visit.isLost]
      decide
  | lostMember package cls was =>
      intro issue listed
      rw [List.mem_singleton.mp listed]
      cases was.item <;> rfl

theorem placedAt_of_mem (sources : Sources) (visit : Visit) {finding : Finding}
    (found : finding ∈ visit.findings sources) :
    PlacedAt sources.previous sources.current visit finding := by
  obtain ⟨issue, listed, message, rfl⟩ := reports_visit sources visit finding found
  exact ⟨rfl, rfl, listed, isRemoval_issues visit issue listed, rfl, rfl⟩

/-- A report goes from visit to visit.  What it says there are warnings about what is visited, each
placed at it and with the code of its issue, and the warnings are counted. -/
theorem compare_placed {previous current : Api} {report : Report}
    (run : previous.compare current = .ok report) :
    (∃ blocks : List (Visit × List Finding),
      blocks.map Prod.fst = visits previous current ∧
      report.findings = blocks.flatMap Prod.snd ∧
      ∀ block ∈ blocks, block.1.Of previous current ∧
        ∀ finding ∈ block.2, PlacedAt previous.source current.source block.1 finding) ∧
    report.errors = 0 ∧ report.warnings = report.findings.length := by
  obtain ⟨_, rfl⟩ := (Api.compare_eq_ok_iff _ _ _).mp run
  refine ⟨⟨(visits previous current).map fun visit =>
      (visit, visit.findings ⟨previous.source, current.source⟩), ?_, ?_, ?_⟩, ?_, ?_⟩
  · simp [Function.comp_def]
  · rw [List.flatMap_map]
    exact findings_visits previous current
  · intro block member
    obtain ⟨visit, stored, rfl⟩ := List.mem_map.mp member
    exact ⟨of_mem_visits stored, fun finding found => placedAt_of_mem _ visit found⟩
  · rw [Report.ofFindings, List.countP_eq_zero]
    intro finding found
    rw [severity_findings previous current finding found]
    decide
  · rw [Report.ofFindings, List.countP_eq_length]
    intro finding found
    rw [severity_findings previous current finding found]
    decide

/-- A changed kind, a changed member and a missing one, in files that disagree on all lines. -/
theorem compare_placed_movedSample :
    ∃ report,
      (visitSample "old.txt" 1 [("p", "p")] .classKind
        [scopedField .publicScope "x", scopedField .publicScope "y"]).compare
        (visitSample "new.txt" 11 [("p", "p")] .interfaceKind
          [scopedField .packageScope "x"]) = .ok report ∧
      report.findings.map (fun finding => (finding.code, finding.target, finding.location)) =
        [(23, "p.C", { file := "new.txt", line := 12 }),
          (19, "p.C.x", { file := "new.txt", line := 13 }),
          (10, "p.C.y", { file := "old.txt", line := 4 })] ∧
      report.errors = 0 ∧ report.warnings = 3 := by
  refine ⟨_, rfl, by decide, ?_⟩
  obtain ⟨errors, warnings⟩ := (@compare_placed
    (visitSample "old.txt" 1 [("p", "p")] .classKind
      [scopedField .publicScope "x", scopedField .publicScope "y"])
    (visitSample "new.txt" 11 [("p", "p")] .interfaceKind [scopedField .packageScope "x"]) _ rfl).2
  exact ⟨errors, warnings.trans (by decide)⟩

end ApiCompat.Compare
