import ApiCompat.Proofs.Signature.ClassTakes
import ApiCompat.Proofs.Signature.Written
import ApiCompat.Signature.Read

/-!
# Reading what was written

A description made of identifiers and clear of clashes is written as a text
that is read back as the same description, or not, just as it is rereadable.
-/

set_option autoImplicit false

namespace ApiCompat.Signature

variable {allowed : String → Prop}

/-! ## The header -/

theorem splitLines_line {line : List Char} (single : '\n' ∉ line) (rest : List Char) :
    splitLines (line ++ '\n' :: rest) = line :: splitLines rest := by
  induction line with
  | nil => simp [splitLines]
  | cons c line ih =>
      simp only [List.mem_cons, not_or] at single
      have other : c ≠ '\n' := fun same => single.1 same.symm
      simp [splitLines, other, ih single.2]

def headerLine (mode : NullMode) : String := "// Signature format: " ++ mode.version

theorem headerLine_spec (mode : NullMode) :
    '\n' ∉ (headerLine mode).toList ∧ (trim (headerLine mode).toList).isEmpty = false ∧
      headerVersion? (trim (headerLine mode).toList) = some mode.version := by
  cases mode <;> decide

theorem writeHeader_eq (mode : NullMode) : writeHeader mode = headerLine mode ++ "\n" := rfl

/-- A text that begins with the header line of a null mode has that header. -/
theorem header?_headed (mode : NullMode) (text : List Char) :
    header? ((headerLine mode).toList ++ '\n' :: text) = some (1, mode.version) := by
  obtain ⟨single, filled, version⟩ := headerLine_spec mode
  rw [header?, splitLines_line single]
  simp [firstContentFrom, filled, version]

theorem header_write (api : Api) : header? (write api).toList = some (1, api.nullMode.version) := by
  have shape : ∃ text, (write api).toList = (headerLine api.nullMode).toList ++ '\n' :: text := by
    rw [write, writeHeader_eq, String.toList_append, String.toList_append, List.append_assoc]
    exact ⟨_, rfl⟩
  obtain ⟨text, shape⟩ := shape
  rw [shape, header?_headed]

/-- The header states the null mode under which the text was written. -/
theorem resolveMode_write (api : Api) {requested : Option NullMode}
    (agrees : ∀ mode ∈ requested, mode = api.nullMode) :
    resolveMode (write api).toList requested = .ok api.nullMode := by
  rw [resolveMode, header_write]
  simp only [NullMode.ofVersion?_version]
  cases requested with
  | none => rfl
  | some asked => simp [agrees asked rfl]

/-! ## Whole texts -/

/-- What is written and then read declares the same, or fails or declares
something else, just as the description is rereadable. -/
theorem retells_write (idents : Identifiers allowed) {api : Api} (formed : api.Formed allowed)
    (clear : api.Clear) (source : String) {requested : Option NullMode}
    (agrees : ∀ mode ∈ requested, mode = api.nullMode) :
    (api.Rereadable → ∃ again, read source (write api) requested = .ok again ∧
        again.unplaced = api.unplaced) ∧
      ∀ again, read source (write api) requested = .ok again → again.same api = true →
        api.Rereadable := by
  obtain ⟨lexemes, tokenized, spells⟩ := tokenize_write idents formed
  have named : ∀ entry ∈ api.packages.entries, entry.1 = entry.2.item.name :=
    fun entry stored => (formed.keyed entry stored).1
  have inner : ∀ told ∈ api.packages.values, told.item.Keyed := by
    intro told stored
    obtain ⟨name, entry⟩ := (api.packages.mem_values_iff told).mp stored
    exact (formed.keyed _ entry).2
  have distinct : ((OrderedMap.empty : OrderedMap String (Located Package)).keys ++
      api.packages.values.map fun told => told.item.name).Nodup :=
    api.packages.nodup_map_values _ named
  have enough : api.packages.values.length ≤ lexemes.length := by
    rw [← spells.length_eq]
    have starts : ∀ told ∈ api.packages.values, Starts (packageWords api.nullMode told.item) :=
      fun _ _ => ⟨_, _, rfl, TokenKind.noConfusion⟩
    exact length_le_of_starts starts
  have takes := @retells_packages api.nullMode allowed idents _ formed.packages inner clear .empty
    distinct _ enough
  let context : Context := { nullMode := api.nullMode, endLine := lastLine lexemes }
  have outcome := takes context lexemes [] rfl spells .nil
  rw [List.append_nil] at outcome
  have stages : read source (write api) requested =
      (packageBlocks lexemes.length .empty context lexemes).map fun found =>
        { source, nullMode := api.nullMode, packages := found.1 } := by
    simp only [read, resolveMode_write api agrees, tokenized, readPackages]
    cases packageBlocks lexemes.length .empty context lexemes <;> rfl
  rcases outcome with ⟨packages, blocks, founds, retold, entries⟩ | ⟨bad, fault, blocks⟩
  · have retells := retells_map named entries retold
    rw [blocks] at stages
    refine ⟨fun good => ⟨_, stages, ?_⟩, ?_⟩
    · have samePackages := retells.equal good
      simp only [Api.unplaced]
      exact congrArg (Api.mk "" api.nullMode) samePackages
    · intro again whole same
      rw [stages] at whole
      obtain rfl := Except.ok.inj whole
      simp only [Api.same, Bool.and_eq_true] at same
      exact retells.only same.2
  · rw [blocks] at stages
    refine ⟨fun good => absurd good bad, ?_⟩
    intro again whole
    rw [stages] at whole
    cases whole

end ApiCompat.Signature
