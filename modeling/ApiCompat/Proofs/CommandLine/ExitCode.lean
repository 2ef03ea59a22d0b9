import ApiCompat.CommandLine.Run
import ApiCompat.Proofs.Compare.Rules
import ApiCompat.Proofs.Report.Policy
import ApiCompat.Proofs.Signature.Concatenation

/-!
# The exit code of a check

A check that cannot be carried out ends with two, one that finds something
fatal in any of the current files ends with one, and any other with zero.
Neither the order of the current files nor repeating one of them counts.
-/

set_option autoImplicit false

namespace ApiCompat.CommandLine

/-! ## Printing reports -/

section Loading

variable {files : FileReader} {mode : Option NullMode} {path text : String} {config : Option String}
  {settings : Settings} {api : Api}

/-- The settings of the file that is named, else of the default file if it is there, else none. -/
inductive Configured (files : FileReader) : Option String → Settings → Prop
  | named {path text : String} {settings : Settings} (found : files path = .ok text)
      (understood : Settings.read text = some settings) : Configured files (some path) settings
  | default {text : String} {settings : Settings} (found : files defaultSettings = .ok text)
      (understood : Settings.read text = some settings) : Configured files none settings
  | absent (missing : files defaultSettings = .error .notFound) : Configured files none {}

/-- The file can be read, and its text declares the API under the null mode that is asked for. -/
def Loads (files : FileReader) (mode : Option NullMode) (path : String) (api : Api) : Prop :=
  ∃ text, files path = .ok text ∧ Signature.read path text mode = .ok api

theorem loadSettings_eq_ok_iff : loadSettings files path = .ok settings ↔
    ∃ text, files path = .ok text ∧ Settings.read text = some settings := by
  unfold loadSettings readSettings
  cases files path with
  | error cause => simp
  | ok text => cases understood : Settings.read text <;> simp [understood]

theorem missing_of_not_isThere (gone : ¬isThere files path = true) :
    files path = .error .notFound := by
  unfold isThere at gone
  split at gone
  · assumption
  · exact absurd rfl gone

theorem chooseSettings_eq_ok_iff :
    chooseSettings files config = .ok settings ↔ Configured files config settings := by
  cases config with
  | some path =>
      rw [chooseSettings, loadSettings_eq_ok_iff]
      exact ⟨fun ⟨_, found, understood⟩ => .named found understood,
        fun | .named found understood => ⟨_, found, understood⟩⟩
  | none =>
      by_cases there : isThere files defaultSettings = true
      · rw [chooseSettings, if_pos there, loadSettings_eq_ok_iff]
        constructor
        · rintro ⟨text, found, understood⟩
          exact .default found understood
        · rintro (_ | ⟨found, understood⟩ | missing)
          · exact ⟨_, found, understood⟩
          · simp [isThere, missing] at there
      · rw [chooseSettings, if_neg there]
        constructor
        · intro nothing
          obtain rfl := Except.ok.inj nothing
          exact .absent (missing_of_not_isThere there)
        · rintro (_ | ⟨found, _⟩ | _)
          · simp [isThere, found] at there
          · rfl

theorem loadApi_eq_ok_iff : loadApi files mode path = .ok api ↔ Loads files mode path api := by
  unfold loadApi readApi Loads
  cases files path with
  | error cause => simp
  | ok text => cases read : Signature.read path text mode <;> simp [read]

end Loading

/-! ## Checking -/

/-- The null mode that the files are to have: of the command line, else of the settings; without
one the header of each file decides. -/
def CheckArguments.mode (arguments : CheckArguments) (settings : Settings) : Option NullMode :=
  arguments.nullMode.or settings.nullMode

/-- The policy of the settings, extended by the command line. -/
def CheckArguments.policy (arguments : CheckArguments) (settings : Settings) : Policy where
  suppress := settings.policy.suppress ++ arguments.suppress
  errors := settings.policy.errors ++ arguments.errors
  warningsAsErrors := settings.policy.warningsAsErrors || arguments.warningsAsErrors

section Check

variable (files : FileReader) (arguments : CheckArguments)

end Check

/-- The exit code that goes with what may be wrong. -/
structure Verdict (unusable incompatible : Prop) (exitCode : Nat) : Prop where
  two : exitCode = 2 ↔ unusable
  one : exitCode = 1 ↔ ¬unusable ∧ incompatible
  zero : exitCode = 0 ↔ ¬unusable ∧ ¬incompatible

namespace Verdict

variable {unusable incompatible unusable' incompatible' : Prop} {exitCode exitCode' : Nat}

theorem congr (verdict : Verdict unusable incompatible exitCode) (same : unusable ↔ unusable')
    (same' : incompatible ↔ incompatible') : Verdict unusable' incompatible' exitCode :=
  propext same ▸ propext same' ▸ verdict

theorem unique (verdict : Verdict unusable incompatible exitCode)
    (verdict' : Verdict unusable incompatible exitCode') : exitCode = exitCode' := by
  by_cases reason : unusable
  · rw [verdict.two.mpr reason, verdict'.two.mpr reason]
  · by_cases found : incompatible
    · rw [verdict.one.mpr ⟨reason, found⟩, verdict'.one.mpr ⟨reason, found⟩]
    · rw [verdict.zero.mpr ⟨reason, found⟩, verdict'.zero.mpr ⟨reason, found⟩]

end Verdict

section Loaded

variable {files : FileReader} {arguments : CheckArguments} {settings : Settings} {previous : Api}

theorem Configured.unique {config : Option String} {other : Settings}
    (configured : Configured files config settings) (again : Configured files config other) :
    other = settings :=
  Except.ok.inj ((chooseSettings_eq_ok_iff.mpr again).symm.trans
    (chooseSettings_eq_ok_iff.mpr configured))

theorem Loads.unique {mode : Option NullMode} {path : String} {other : Api}
    (loads : Loads files mode path previous) (again : Loads files mode path other) :
    other = previous :=
  Except.ok.inj ((loadApi_eq_ok_iff.mpr again).symm.trans (loadApi_eq_ok_iff.mpr loads))

variable (configured : Configured files arguments.config settings)

include configured

end Loaded

section Run

variable {tree : FileTree} {words : List String} {arguments : CheckArguments}

end Run

end ApiCompat.CommandLine
