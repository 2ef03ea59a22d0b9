import ApiCompat.CommandLine.Run
import ApiCompat.Proofs.Toml.Written

/-!
# Settings that are saved and read again

The text of settings is read as the same settings, whatever codes they list.
What a file tree was given for a path is what is found there afterwards, so
settings that were saved are loaded unchanged, and saving them once more
changes nothing.
-/

set_option autoImplicit false

namespace ApiCompat

/-! ## Settings as a document -/

namespace Settings

open Toml

def codesToToml (codes : List UInt32) : Toml :=
  .array ((codes.map UInt32.toNat).map fun n : Nat => .integer n)

theorem decodeCodes_codesToToml (codes : List UInt32) :
    decodeCodes (codesToToml codes) = some codes := by
  rw [codesToToml, decodeCodes]
  induction codes with
  | nil => rfl
  | cons code codes ih =>
      have small : code.toNat < 0x100000000 := code.toNat_lt
      have fits : (0 : Int) ≤ code.toNat ∧ (code.toNat : Int) < 0x100000000 := by omega
      have read : decodeCode (.integer code.toNat) = some code := by
        rw [decodeCode, if_pos fits, Int.toNat_natCast, UInt32.ofNat_toNat]
      rw [List.map_cons, List.map_cons, List.mapM_cons, read, ih]
      rfl

theorem readsAs_codes (codes : List UInt32) :
    ReadsAs (writeCodes codes).toList (codesToToml codes) := by
  have written : (writeCodes codes).toList = arrayText (codes.map UInt32.toNat) := by
    match codes with
    | [] => rfl
    | [code] => simp [writeCodes, arrayText]
    | first :: second :: more =>
        simp [writeCodes, arrayText, itemLine, String.toList_join, List.flatMap_map]
  rw [written]
  refine readsAs_arrayText fun n member => ?_
  obtain ⟨code, _, rfl⟩ := List.mem_map.mp member
  exact code.toNat_lt

theorem begins_writeCodes (codes : List UInt32) :
    ∃ more, (writeCodes codes).toList = '[' :: more := by
  match codes with
  | [] => exact ⟨_, rfl⟩
  | [code] => exact ⟨(toString code.toNat).toList ++ [']'], by simp [writeCodes]⟩
  | first :: second :: more =>
      refine ⟨'\n' :: (String.join ((first :: second :: more).map
        fun code => "    " ++ toString code.toNat ++ ",\n")).toList ++ [']'], ?_⟩
      simp [writeCodes]

def statements (settings : Settings) : List Statement :=
  .table ["parse"] ::
    ((settings.nullMode.map fun mode =>
        Statement.assign ["null_mode"] (.string mode.name)).toList ++
      [.table ["policy"], .assign ["suppress"] (codesToToml settings.policy.suppress),
        .assign ["errors"] (codesToToml settings.policy.errors),
        .assign ["warnings_as_errors"] (.boolean settings.policy.warningsAsErrors)])

/-- The document that written settings stand for. -/
def document (settings : Settings) : Toml :=
  .table
    [("parse", .table (settings.nullMode.map fun mode => ("null_mode", .string mode.name)).toList),
      ("policy", .table
        [("suppress", codesToToml settings.policy.suppress),
          ("errors", codesToToml settings.policy.errors),
          ("warnings_as_errors", .boolean settings.policy.warningsAsErrors)])]

theorem decode_document (settings : Settings) : decode settings.document = some settings := by
  obtain ⟨mode, suppress, errors, warningsAsErrors⟩ := settings
  cases mode with
  | none =>
      simp [document, decode, decodeField, field?, decodeParse, isRecord, decodePolicy,
        decodeCodes_codesToToml, decodeTruth]
  | some mode =>
      simp [document, decode, decodeField, field?, decodeParse, isRecord, decodePolicy,
        decodeCodes_codesToToml, decodeTruth, decodeMode, NullMode.ofName?_name]

theorem foldlM_statements (settings : Settings) :
    ∃ draft, settings.statements.foldlM Draft.add { path := [], root := [] } = some draft ∧
      .table (finishAll draft.root) = settings.document := by
  obtain ⟨mode, suppress, errors, warningsAsErrors⟩ := settings
  cases mode with
  | none => exact ⟨_, rfl, rfl⟩
  | some mode => exact ⟨_, rfl, rfl⟩

def keyLine (key : String) (value : List Char) : List Char :=
  key.toList ++ ' ' :: '=' :: ' ' :: (value ++ ['\n'])

/-- The lines of the policy, from the empty line in front of them on. -/
def policyLines (policy : Policy) : List Char :=
  '\n' :: '[' :: ("policy".toList ++ ']' :: '\n' ::
    (keyLine "suppress" (writeCodes policy.suppress).toList ++
      (keyLine "errors" (writeCodes policy.errors).toList ++
        keyLine "warnings_as_errors" (writeTruth policy.warningsAsErrors).toList)))

theorem write_toList (settings : Settings) :
    (write settings).toList = '[' :: ("parse".toList ++ ']' :: '\n' ::
      ((settings.nullMode.map fun mode =>
          keyLine "null_mode" ('"' :: (mode.name.toList ++ ['"']))).getD [] ++
        policyLines settings.policy)) := by
  cases mode : settings.nullMode with
  | none => simp [write, mode, policyLines, keyLine]
  | some mode => simp [write, mode, policyLines, keyLine]

theorem readStatements_keyLine {key : String} {value : List Char} {content : Toml} {c : Char}
    {more : List Char} (bare : key.toList.all isBareKeyChar = true) (filled : key.toList ≠ [])
    (reads : ReadsAs value content) (begins : value = c :: more) (solid : isSolid c = true)
    (lines : Nat) (rest : List Char) :
    readStatements (lines + 1) (keyLine key value ++ rest) =
      (readStatements lines rest).map fun later => .assign [key] content :: later := by
  have line := readStatements_assign bare filled reads begins solid lines rest
  rw [String.ofList_toList] at line
  rw [← line, keyLine]
  simp

theorem readStatements_policyLines (policy : Policy) (lines : Nat) :
    readStatements (lines + 6) (policyLines policy) =
      some [.table ["policy"], .assign ["suppress"] (codesToToml policy.suppress),
        .assign ["errors"] (codesToToml policy.errors),
        .assign ["warnings_as_errors"] (.boolean policy.warningsAsErrors)] := by
  obtain ⟨_, suppress⟩ := begins_writeCodes policy.suppress
  obtain ⟨_, errors⟩ := begins_writeCodes policy.errors
  have truth : ∃ c more, (writeTruth policy.warningsAsErrors).toList = c :: more ∧
      isSolid c = true := by
    cases policy.warningsAsErrors with
    | false => exact ⟨_, _, rfl, by decide⟩
    | true => exact ⟨_, _, rfl, by decide⟩
  obtain ⟨_, _, truth, solid⟩ := truth
  have reads : ReadsAs (writeTruth policy.warningsAsErrors).toList
      (.boolean policy.warningsAsErrors) := readsAs_truth policy.warningsAsErrors
  have last : readStatements (lines + 2)
      (keyLine "warnings_as_errors" (writeTruth policy.warningsAsErrors).toList ++ []) = _ :=
    readStatements_keyLine (by decide) (by decide) reads truth solid (lines + 1) []
  rw [List.append_nil] at last
  rw [policyLines, readStatements_blank, readStatements_header (by decide) (by decide),
    readStatements_keyLine (by decide) (by decide) (readsAs_codes policy.suppress) suppress
      (by decide),
    readStatements_keyLine (by decide) (by decide) (readsAs_codes policy.errors) errors
      (by decide), last]
  rfl

theorem readStatements_write (settings : Settings) (lines : Nat) :
    readStatements (lines + 8) (write settings).toList = some settings.statements := by
  rw [write_toList, readStatements_header (by decide) (by decide)]
  unfold statements
  cases settings.nullMode with
  | none =>
      rw [Option.map_none, Option.getD_none, List.nil_append]
      rw [readStatements_policyLines settings.policy (lines + 1)]
      rfl
  | some mode =>
      have plain : ∀ c ∈ mode.name.toList, isPlainChar c = true :=
        List.all_eq_true.mp (by cases mode <;> decide)
      have filled : mode.name.toList ≠ [] := by
        cases mode <;> decide
      have value := readsAs_string plain filled
      rw [String.ofList_toList] at value
      rw [Option.map_some, Option.getD_some,
        readStatements_keyLine (by decide) (by decide) value rfl (by decide),
        readStatements_policyLines settings.policy lines]
      rfl

/-- The text of settings is read as the same settings. -/
theorem read_writtenSettings (settings : Settings) :
    Settings.read (write settings) = some settings := by
  obtain ⟨more, text⟩ : ∃ more, (write settings).toList = '[' :: more := ⟨_, write_toList settings⟩
  have noMark : ¬(write settings).toList.head? = some '\ufeff' := by
    rw [text]
    exact fun same => absurd (Option.some.inj same) (by decide)
  have enough : ∃ lines, (write settings).toList.length + 1 = lines + 8 := by
    refine ⟨(write settings).toList.length - 7, ?_⟩
    have long : 7 ≤ (write settings).toList.length := by
      rw [write_toList]
      simp
    omega
  obtain ⟨lines, enough⟩ := enough
  obtain ⟨draft, filled, finished⟩ := foldlM_statements settings
  have document : Toml.read (write settings) = some settings.document := by
    simp only [Toml.read, if_neg noMark, enough, readStatements_write, Option.bind_eq_bind,
      Option.bind_some, filled]
    rw [← finished]
    rfl
  rw [Settings.read, document, Option.bind_some, decode_document]

end Settings

/-! ## Files -/

namespace FileTree

def put (tree : FileTree) (place : List String) (content : ByteArray) : FileTree :=
  ⟨(place, content) :: tree.files.filter fun file => file.1 != place⟩

variable {tree : FileTree} {place path : List String} {content : ByteArray}

theorem put_put : (tree.put place content).put place content = tree.put place content := by
  simp [put, List.filter_filter]

theorem content?_put : (tree.put place content).content? place = some content := by
  simp [put, content?]

theorem isDirectory_put (directory : tree.isDirectory path = true) :
    (tree.put place content).isDirectory path = true := by
  simp only [isDirectory, Bool.or_eq_true, List.any_eq_true] at directory ⊢
  refine directory.imp_right ?_
  rintro ⟨file, stored, front⟩
  by_cases same : file.1 = place
  · exact ⟨(place, content), List.mem_cons_self, same ▸ front⟩
  · exact ⟨file, List.mem_cons_of_mem _ (List.mem_filter.mpr ⟨stored, by simp [same]⟩), front⟩

theorem not_isDirectory_put (noDirectory : ¬tree.isDirectory place = true) :
    ¬(tree.put place content).isDirectory place = true := by
  simp only [isDirectory, Bool.or_eq_true, List.any_eq_true] at noDirectory ⊢
  rintro (empty | ⟨file, stored, front⟩)
  · exact noDirectory (.inl empty)
  · rcases List.mem_cons.mp stored with rfl | stored
    · simp at front
    · exact noDirectory (.inr ⟨file, (List.mem_filter.mp stored).1, front⟩)

/-- The entry is a file at the place, or the place is free for one. -/
def Admits (place : List String) : FileEntry → Prop
  | .file path _ => path = place
  | .vacant path => path = place
  | _ => False

/-- A path that leads to a place leads to the file that was put there. -/
theorem follow_put {here names : List String} (leads : Admits place (tree.follow here names)) :
    (tree.put place content).follow here names = .file place content := by
  induction names generalizing here with
  | nil => exact leads.elim
  | cons name rest ih =>
      rw [follow] at leads ⊢
      by_cases stays : name = "" ∨ name = "."
      · rw [if_pos stays] at leads ⊢
        exact ih leads
      · rw [if_neg stays] at leads ⊢
        by_cases up : name = ".."
        · rw [if_pos up] at leads ⊢
          by_cases outside : here.isEmpty = true
          · rw [if_pos outside] at leads
            exact leads.elim
          · rw [if_neg outside] at leads ⊢
            exact ih leads
        · rw [if_neg up] at leads ⊢
          dsimp only at leads ⊢
          by_cases inside : tree.isDirectory (here ++ [name]) = true
          · rw [if_pos inside] at leads
            rw [if_pos (isDirectory_put inside)]
            exact ih leads
          · rw [if_neg inside] at leads
            -- The path ends here: the place is the one that it names.
            have ends : rest.isEmpty = true ∧ here ++ [name] = place := by
              split at leads
              · split at leads
                · next last => exact ⟨last, leads⟩
                · exact leads.elim
              · split at leads
                · next last => exact ⟨last, leads⟩
                · exact leads.elim
            obtain ⟨last, rfl⟩ := ends
            rw [if_neg (not_isDirectory_put inside), content?_put]
            exact if_pos last

variable {written text : String} {after : FileTree}

/-- What was written to a path is put at the place to which the path leads. -/
theorem write_eq_ok (saved : tree.write written text = .ok after) :
    ∃ place, Admits place (tree.lookup written) ∧ withoutEndSlashes written = written ∧
      after = tree.put place text.toUTF8 := by
  unfold write at saved
  by_cases plain : withoutEndSlashes written = written
  · simp only [plain, if_true] at saved
    cases found : tree.lookup written with
    | file place content =>
        rw [found] at saved
        exact ⟨place, rfl, plain, (Except.ok.inj saved).symm⟩
    | vacant place =>
        rw [found] at saved
        exact ⟨place, rfl, plain, (Except.ok.inj saved).symm⟩
    | directory place =>
        rw [found] at saved
        cases saved
    | failure cause =>
        rw [found] at saved
        cases saved
  · simp only [if_neg plain] at saved
    cases found : tree.lookup (withoutEndSlashes written) <;> rw [found] at saved <;> cases saved

theorem lookup_put (leads : Admits place (tree.lookup written)) :
    (tree.put place content).lookup written = .file place content := by
  unfold lookup at leads ⊢
  by_cases outside : written.isEmpty = true ∨ written.toList.head? = some '/'
  · rw [if_pos outside] at leads
    exact leads.elim
  · rw [if_neg outside] at leads ⊢
    exact follow_put leads

theorem fromUTF8?_toUTF8 (text : String) : String.fromUTF8? text.toUTF8 = some text := by
  have valid : text.toUTF8.IsValidUTF8 := text.isValidUTF8
  rw [String.fromUTF8?, dif_pos valid]
  rfl

/-- What was written to a path is read from it, and writing it again changes nothing. -/
theorem read_written (saved : tree.write written text = .ok after) :
    after.read written = .ok text ∧ after.write written text = .ok after := by
  obtain ⟨place, leads, plain, rfl⟩ := write_eq_ok saved
  have found : (tree.put place text.toUTF8).lookup written = .file place text.toUTF8 :=
    lookup_put leads
  constructor
  · simp only [read, found, fromUTF8?_toUTF8]
  · simp only [write, plain, found, if_true]
    exact congrArg Except.ok put_put

end FileTree

/-! ## Saved settings -/

namespace CommandLine

/-- Saved settings are loaded unchanged, and what was loaded is saved as the same file. -/
theorem readSettings_saved {tree after : FileTree} {path : String} (settings : Settings)
    (saved : tree.write path settings.write = .ok after) :
    readSettings after.read path = .ok settings ∧
      ∀ loaded, readSettings after.read path = .ok loaded →
        loaded.write = settings.write ∧ after.write path loaded.write = .ok after := by
  obtain ⟨found, again⟩ := FileTree.read_written saved
  have read : readSettings after.read path = .ok settings := by
    simp only [readSettings, found, Settings.read_writtenSettings]
  refine ⟨read, ?_⟩
  intro loaded same
  rw [read] at same
  obtain rfl := Except.ok.inj same
  exact ⟨rfl, again⟩

/-- Settings of every kind, with a code that is listed twice. -/
def listedSettings : Settings where
  nullMode := some .nullAware
  policy := { suppress := [17, 4294967295, 17, 0], errors := [8], warningsAsErrors := true }

theorem readSettings_saved_listedSettings :
    ∃ after, FileTree.write ⟨[(["conf", "old.toml"], "".toUTF8)]⟩ "./conf/sigcheck.toml"
        listedSettings.write = .ok after ∧
      readSettings after.read "./conf/sigcheck.toml" = .ok listedSettings := by
  have saved : ∃ after, FileTree.write ⟨[(["conf", "old.toml"], "".toUTF8)]⟩
      "./conf/sigcheck.toml" listedSettings.write = .ok after := ⟨_, rfl⟩
  obtain ⟨after, saved⟩ := saved
  exact ⟨after, saved, (readSettings_saved listedSettings saved).1⟩

end CommandLine

end ApiCompat
