import ApiCompat.Signature.Fault
import ApiCompat.Text.Blank
import ApiCompat.Text.Lines

/-!
# The format header

The first line that is not blank may be a comment that states the format
version, and so the null mode of the file:

    // Signature format: 3.0

Without a header the mode asked for holds, and legacy if none is.
-/

set_option autoImplicit false

namespace ApiCompat.Signature

/-- The first line with anything but blanks, trimmed, and its number when lines
are counted from `number`. -/
def firstContentFrom (number : Nat) : List (List Char) → Option (Nat × List Char)
  | [] => none
  | line :: rest =>
      let content := trim line
      if content.isEmpty then firstContentFrom (number + 1) rest else some (number, content)

def dropFront? : List Char → List Char → Option (List Char)
  | [], text => some text
  | _ :: _, [] => none
  | c :: front, c' :: text => if c = c' then dropFront? front text else none

def headerVersion? (content : List Char) : Option String := do
  let afterSlashes ← dropFront? "//".toList content
  let afterTitle ← dropFront? "Signature format:".toList (trimFront afterSlashes)
  let version := trimFront afterTitle
  if version.isEmpty || version.any isBlank then none else some (String.ofList version)

/-- The version that a text states in its header, with the line of the header. -/
def header? (text : List Char) : Option (Nat × String) := do
  let (number, content) ← firstContentFrom 1 (splitLines text)
  let version ← headerVersion? content
  return (number, version)

def resolveMode (text : List Char) (requested : Option NullMode) : Except Fault NullMode :=
  match header? text with
  | none => .ok (requested.getD .legacy)
  | some (line, version) =>
      match NullMode.ofVersion? version with
      | none => .error { line, reason := .unsupportedFormat version }
      | some implied =>
          match requested with
          | none => .ok implied
          | some mode =>
              if mode = implied then .ok mode
              else .error { line, reason := .modeConflict version implied mode }

end ApiCompat.Signature
