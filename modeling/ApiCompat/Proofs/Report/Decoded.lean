import ApiCompat.Proofs.Json.Decoded
import ApiCompat.Report.Json

/-!
# Reports from their JSON

All fields of a report are written, so a report is decoded with its counts as
they stand.
-/

set_option autoImplicit false

namespace ApiCompat

open Json Decoder

theorem Severity.ofName?_name (severity : Severity) :
    Severity.ofName? severity.name = some severity := by
  cases severity <;> rfl

theorem Location.decodes (location : Location) :
    Decodes Location.ofJson? location.toJson location := by
  refine decodes_record (by decide) (List.Sublist.refl _) fun room fitting => ?_
  refine bind_required fitting (decodes_text location.file) (by simp) ?_
  exact bind_required fitting (decodes_count location.line) (by simp) rfl

theorem Finding.decodes (finding : Finding) :
    Decodes Finding.ofJson? finding.toJson finding := by
  refine decodes_record (by decide) (List.Sublist.refl _) fun room fitting => ?_
  refine bind_required fitting (decodes_word false finding.issue.ofName?_name) (by simp) ?_
  refine bind_required fitting (decodes_code finding.code) (by simp) ?_
  refine bind_required fitting (decodes_word false finding.severity.ofName?_name) (by simp) ?_
  refine bind_required fitting (decodes_text finding.message) (by simp) ?_
  refine bind_required fitting (decodes_text finding.target) (by simp) ?_
  exact bind_required fitting finding.location.decodes (by simp) rfl

theorem Report.decodes (report : Report) : Decodes Report.decode? report.toJson report := by
  have findings : Decodes (list Finding.ofJson?) (array (report.findings.map Finding.toJson))
      report.findings := decodes_list fun finding _ => finding.decodes
  refine decodes_record (by decide) (List.Sublist.refl _) fun room fitting => ?_
  refine bind_required fitting (decodes_text report.previous) (by simp) ?_
  refine bind_required fitting (decodes_text report.current) (by simp) ?_
  refine bind_required fitting findings (by simp) ?_
  refine bind_required fitting (decodes_count report.errors) (by simp) ?_
  exact bind_required fitting (decodes_count report.warnings) (by simp) rfl

theorem Report.plain_toJson (report : Report) : Plain report.toJson := by
  simp [Report.toJson, Finding.toJson, Location.toJson]

/-- A location is in a finding, a finding in the list of the report. -/
theorem Report.depth_toJson (report : Report) : report.toJson.depth ≤ 4 := by
  have finding : ∀ finding ∈ report.findings.map Finding.toJson, finding.depth ≤ 2 := by
    intro json member
    obtain ⟨finding, _, rfl⟩ := List.mem_map.mp member
    exact Nat.le_refl 2
  have findings : deepestItem (report.findings.map Finding.toJson) ≤ 2 := deepestItem_le.mpr finding
  simp only [Report.toJson, depth, deepestField, fieldDepth]
  omega

end ApiCompat
