import ApiCompat.Api.ToJson
import ApiCompat.Json.Print
import ApiCompat.Report.Json
import ApiCompat.Style

/-!
# Presenting reports and APIs

Both can be shown as text for people or as JSON, on one line or indented.
-/

set_option autoImplicit false

namespace ApiCompat

inductive OutputFormat where
  | text
  | json
  | jsonPretty
deriving DecidableEq

def OutputFormat.ofName? : String → Option OutputFormat
  | "text" => some .text
  | "json" => some .json
  | "json-pretty" => some .jsonPretty
  | _ => none

/-! ## Reports -/

def paintSeverity (colors : Bool) : Severity → String
  | .error => paint colors .redBold "error"
  | .warning => paint colors .yellowBold "warning"

def showFinding (colors : Bool) (finding : Finding) : String :=
  paint colors .dimmed finding.location.display ++ ": " ++ paintSeverity colors finding.severity ++
    ": " ++ finding.message ++ " " ++ paint colors .dimmed ("[" ++ finding.issue.display ++ "]")

/-- The last line of a report. -/
def showVerdict (colors : Bool) (report : Report) : String :=
  let warnings := paint colors .yellow (toString report.warnings)
  if report.errors > 0 then
    paint colors .redBold (toString report.errors) ++ " errors, " ++ warnings ++ " warnings\n"
  else if report.warnings > 0 then
    paint colors .greenBold "OK" ++ " " ++ warnings ++ " warnings\n"
  else paint colors .greenBold "OK" ++ " No compatibility issues found\n"

def showReport (colors : Bool) (report : Report) : String :=
  "Compatibility: " ++ paint colors .bold report.previous ++ " -> " ++
    paint colors .bold report.current ++ "\n\n" ++
    String.join (report.findings.map fun finding => showFinding colors finding ++ "\n") ++
    (if report.findings.isEmpty then "" else "\n") ++ showVerdict colors report

def formatReport (format : OutputFormat) (colors : Bool) (report : Report) : String :=
  match format with
  | .text => showReport colors report
  | .json => report.toJson.compact
  | .jsonPretty => report.toJson.pretty

/-! ## APIs -/

def showLine (line : Nat) : String := " (line " ++ toString line ++ ")\n"

/-- A member without its line number. -/
def showMember : Member → String
  | .constructor item => "ctor " ++ item.signature
  | .method item => "method " ++ item.returnType.display ++ " " ++ item.signature
  | .field item =>
      if item.isEnumConstant then "enum_constant " ++ item.name
      else "field " ++ item.type.display ++ " " ++ item.name

def showClass (colors : Bool) (cls : Located ClassDecl) : String :=
  "    " ++ cls.item.kind.keyword ++ " " ++ paint colors .cyan cls.item.name ++
    showLine cls.line ++
    String.join (cls.item.members.values.map fun member =>
      "      " ++ showMember member.item ++ showLine member.line)

def showPackage (colors : Bool) (package : Located Package) : String :=
  "\n  package " ++ paint colors .cyan package.item.name ++ showLine package.line ++
    String.join (package.item.classes.values.map (showClass colors))

def showApi (colors : Bool) (api : Api) : String :=
  paint colors .bold api.source ++ " (" ++ api.nullMode.name ++ ")\n  " ++
    toString api.packages.size ++ " packages, " ++ toString api.classCount ++ " classes, " ++
    toString api.memberCount ++ " members\n" ++
    String.join (api.packages.values.map (showPackage colors))

def formatApi (format : OutputFormat) (colors : Bool) (api : Api) : String :=
  match format with
  | .text => showApi colors api
  | .json => api.toJson.compact
  | .jsonPretty => api.toJson.pretty

end ApiCompat
