import ApiCompat.Json.Decode
import ApiCompat.Report.Basic

/-!
# Reports as JSON

All fields are always written and have to be there when a report is read.  The
counts of a report that is read are taken as they stand.
-/

set_option autoImplicit false

namespace ApiCompat

open Json Decoder

def Location.toJson (location : Location) : Json :=
  object [("file", string location.file), ("line", natural location.line)]

def Finding.toJson (finding : Finding) : Json :=
  object
    [("issue", string finding.issue.name), ("code", natural finding.code.toNat),
      ("severity", string finding.severity.name), ("message", string finding.message),
      ("target", string finding.target), ("location", finding.location.toJson)]

def Report.toJson (report : Report) : Json :=
  object
    [("previous", string report.previous), ("current", string report.current),
      ("diagnostics", array (report.findings.map Finding.toJson)),
      ("errors", natural report.errors), ("warnings", natural report.warnings)]

def Location.ofJson? : Decoder Location := fun room json => do
  let record ← JsonRecord.ofJson? ["file", "line"] room json
  return { file := ← record.required "file" text, line := ← record.required "line" count }

def Finding.ofJson? : Decoder Finding := fun room json => do
  let record ← JsonRecord.ofJson?
    ["issue", "code", "severity", "message", "target", "location"] room json
  return {
    issue := ← record.required "issue" (word false Issue.ofName?)
    code := ← record.required "code" Decoder.code
    severity := ← record.required "severity" (word false Severity.ofName?)
    message := ← record.required "message" text
    target := ← record.required "target" text
    location := ← record.required "location" Location.ofJson? }

def Report.decode? : Decoder Report := fun room json => do
  let record ← JsonRecord.ofJson?
    ["previous", "current", "diagnostics", "errors", "warnings"] room json
  return {
    previous := ← record.required "previous" text
    current := ← record.required "current" text
    findings := ← record.required "diagnostics" (list Finding.ofJson?)
    errors := ← record.required "errors" Decoder.count
    warnings := ← record.required "warnings" Decoder.count }

def Report.ofJson? (json : Json) : Option Report := Report.decode? nestingLimit json

end ApiCompat
