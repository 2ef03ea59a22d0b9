import ApiCompat.Issue

/-!
# Reports

A finding says what is wrong with which element, and where.  A report lists
the findings of one comparison and counts them by severity.
-/

set_option autoImplicit false

namespace ApiCompat

inductive Severity where
  | error
  | warning
deriving DecidableEq

def Severity.name : Severity → String
  | error => "error"
  | warning => "warning"

def Severity.ofName? : String → Option Severity
  | "error" => some .error
  | "warning" => some .warning
  | _ => none

structure Location where
  file : String
  line : Nat
deriving DecidableEq

def Location.display (location : Location) : String :=
  location.file ++ ":" ++ toString location.line

structure Finding where
  issue : Issue
  code : UInt32
  severity : Severity
  message : String
  target : String
  location : Location
deriving DecidableEq

namespace Finding

/-- A warning with the code of its issue. -/
def warning (issue : Issue) (message target : String) (location : Location) : Finding :=
  { issue, code := issue.code, severity := .warning, message, target, location }

def display (finding : Finding) : String :=
  finding.location.display ++ ": " ++ finding.severity.name ++ ": " ++ finding.message ++ " [" ++
    finding.issue.display ++ "]"

end Finding

/-- The findings of one comparison, with the number of errors and of warnings. -/
structure Report where
  previous : String
  current : String
  findings : List Finding
  errors : Nat
  warnings : Nat
deriving DecidableEq

namespace Report

def ofFindings (previous current : String) (findings : List Finding) : Report where
  previous := previous
  current := current
  findings := findings
  errors := findings.countP fun finding => finding.severity == .error
  warnings := findings.countP fun finding => finding.severity == .warning

def hasErrors (report : Report) : Bool := report.errors != 0

def count (report : Report) (issue : Issue) : Nat :=
  report.findings.countP fun finding => finding.issue == issue

def codes (report : Report) : List UInt32 := report.findings.map Finding.code

end Report

end ApiCompat
