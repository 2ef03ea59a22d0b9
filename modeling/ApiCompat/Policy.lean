import ApiCompat.Report.Basic

/-!
# Policies

A policy drops the findings of some codes and makes errors of others.  Applied
after one another, two policies act like their union (`Policy.merge`).
-/

set_option autoImplicit false

namespace ApiCompat

/-- Which findings are reported and which are fatal. -/
structure Policy where
  /-- The codes that are never reported. -/
  suppress : List UInt32 := []
  /-- The codes that are reported as errors. -/
  errors : List UInt32 := []
  warningsAsErrors : Bool := false
deriving DecidableEq

namespace Policy

def severityOf (policy : Policy) (finding : Finding) : Severity :=
  if policy.warningsAsErrors || policy.errors.contains finding.code then .error
  else finding.severity

def grade? (policy : Policy) (finding : Finding) : Option Finding :=
  if policy.suppress.contains finding.code then none
  else some { finding with severity := policy.severityOf finding }

/-- The report under the policy, counted anew. -/
def apply (policy : Policy) (report : Report) : Report :=
  Report.ofFindings report.previous report.current (report.findings.filterMap policy.grade?)

def merge (policy other : Policy) : Policy where
  suppress := policy.suppress ++ other.suppress
  errors := policy.errors ++ other.errors
  warningsAsErrors := policy.warningsAsErrors || other.warningsAsErrors

def unknownCodes (policy : Policy) : List UInt32 :=
  (policy.suppress ++ policy.errors).filter fun code => (Issue.ofCode? code).isNone

end Policy

end ApiCompat
