import ApiCompat.Json.Print
import ApiCompat.Json.Read

/-!
# Reading strings and numbers that were written

Every character of a string is read back from its escape or from itself.  A
natural number is written without superfluous zeros and read back from its
digits, wherever nothing follows that would continue a number.
-/

set_option autoImplicit false

namespace ApiCompat.Json

/-! ## Strings -/

theorem hexUnit_control : ∀ n < 0x20,
    hexUnit? '0' '0' (hexDigit (n / 16)) (hexDigit (n % 16)) = some n := by
  decide

theorem readUnits_escapeChar (c : Char) (rest : List Char) :
    readUnits (escapeChar c ++ rest) =
      (readUnits rest).map fun read => (c.toNat :: read.1, read.2) := by
  have same : (readUnits rest >>= fun read => pure (c.toNat :: read.1, read.2)) =
      (readUnits rest).map fun read => (c.toNat :: read.1, read.2) := by
    cases readUnits rest <;> rfl
  rw [← same]
  unfold escapeChar
  split
  · rfl
  · rfl
  · rfl
  · rfl
  · rfl
  · rfl
  · rfl
  · next notQuote notBackslash _ _ _ _ _ =>
      split
      · next small =>
          simp only [List.cons_append, List.nil_append, readUnits, hexUnit_control _ small]
          rfl
      · next large =>
          have plain : ¬(c.toNat < 0x20 ∨ c = '\\') := fun special =>
            special.elim large notBackslash
          rw [List.singleton_append, readUnits.eq_5 c rest notQuote
            (fun _ _ _ _ _ same _ => notBackslash same) (fun _ _ same _ => notBackslash same),
            if_neg plain]

theorem readUnits_escaped (text rest : List Char) :
    readUnits (text.flatMap escapeChar ++ '"' :: rest) = some (text.map Char.toNat, rest) := by
  induction text with
  | nil => rfl
  | cons c text ih =>
      rw [List.flatMap_cons, List.append_assoc, readUnits_escapeChar, ih]
      rfl

/-- No character is half of a surrogate pair. -/
theorem joinHalves_toNat (text : List Char) : joinHalves (text.map Char.toNat) = some text := by
  induction text with
  | nil => rfl
  | cons c text ih =>
      have valid := c.valid
      have high : isHighHalf c.toNat = false := by
        simp only [isHighHalf, Bool.and_eq_false_iff, decide_eq_false_iff_not]
        simp only [UInt32.isValidChar, Nat.isValidChar] at valid
        simp only [Char.toNat]
        omega
      have low : isLowHalf c.toNat = false := by
        simp only [isLowHalf, Bool.and_eq_false_iff, decide_eq_false_iff_not]
        simp only [UInt32.isValidChar, Nat.isValidChar] at valid
        simp only [Char.toNat]
        omega
      rw [List.map_cons, joinHalves.eq_def]
      simp [high, low, ih, Char.ofNat_toNat]

theorem readString_escaped (text : String) (rest : List Char) :
    readString (text.toList.flatMap escapeChar ++ '"' :: rest) = some (some text, rest) := by
  simp [readString, readUnits_escaped, joinHalves_toNat]

/-! ## Numbers -/

def EndsNumber (rest : List Char) : Prop :=
  ∀ c ∈ rest.head?, c.isDigit = false ∧ c ≠ '.' ∧ c ≠ 'e' ∧ c ≠ 'E'

/-- No zero stands in front of another number than zero. -/
theorem head_toDigits {n : Nat} (positive : n ≠ 0) : (Nat.toDigits 10 n).head? ≠ some '0' := by
  induction n using Nat.strongRecOn with
  | ind n ih =>
      by_cases small : n < 10
      · have digit : ∀ d < 10, d ≠ 0 → [d.digitChar].head? ≠ some '0' := by decide
        rw [Nat.toDigits_of_lt_base small]
        exact digit n small positive
      · have front := ih (n / 10) (by omega) (by omega)
        obtain ⟨first, later, shape⟩ :=
          List.exists_cons_of_ne_nil (@Nat.toDigits_ne_nil (n / 10) 10)
        rw [shape] at front
        rw [Nat.toDigits_of_base_le (by omega) (by omega), shape]
        exact front

theorem decimalValue_toDigits (n : Nat) : decimalValue (Nat.toDigits 10 n) = n := by
  have value := @Nat.ofDigitChars_ten_toDigits n
  rw [Nat.ofDigitChars_eq_foldl] at value
  simpa only [decimalValue, Nat.mul_comm] using value

theorem readDigits_append {digits rest : List Char} (filled : digits ≠ [])
    (all : ∀ c ∈ digits, c.isDigit = true) (ends : EndsNumber rest) :
    readDigits (digits ++ rest) = some (digits, rest) := by
  have before : rest.takeWhile Char.isDigit = [] := by
    cases rest with
    | nil => rfl
    | cons c rest => simp [(ends c rfl).1]
  have after : rest.dropWhile Char.isDigit = rest := by
    cases rest with
    | nil => rfl
    | cons c rest => simp [(ends c rfl).1]
  simp [readDigits, List.takeWhile_append_of_pos all, List.dropWhile_append_of_pos all, before,
    after, filled]

theorem readFraction_ends {rest : List Char} (ends : EndsNumber rest) :
    readFraction rest = some ([], rest) := by
  unfold readFraction
  split
  · exact absurd rfl (ends '.' rfl).2.1
  · rfl

theorem readExponent_ends {rest : List Char} (ends : EndsNumber rest) :
    readExponent rest = some ([], rest) := by
  cases rest with
  | nil => rfl
  | cons c rest =>
      have plain : ¬(c = 'e' ∨ c = 'E') := not_or.mpr (ends c rfl).2.2
      simp only [readExponent, if_neg plain]

theorem readUnsigned_toDigits (n : Nat) {rest : List Char} (ends : EndsNumber rest) :
    readUnsigned (Nat.toDigits 10 n ++ rest) = some (Nat.toDigits 10 n, [], rest) := by
  have digits : ∀ c ∈ Nat.toDigits 10 n, c.isDigit = true := fun c member =>
    Nat.isDigit_of_mem_toDigits (by omega) (by omega) member
  have noZero : ¬((Nat.toDigits 10 n).length ≠ 1 ∧ (Nat.toDigits 10 n).head? = some '0') := by
    rintro ⟨long, zero⟩
    by_cases positive : n = 0
    · subst positive
      exact long rfl
    · exact head_toDigits positive zero
  simp only [readUnsigned, readDigits_append Nat.toDigits_ne_nil digits ends, Option.bind_eq_bind,
    Option.bind_some, if_neg noZero, readFraction_ends ends, readExponent_ends ends]
  rfl

theorem isDigit_head_toString (n : Nat) :
    ∃ first later, (toString n).toList = first :: later ∧ first.isDigit = true := by
  obtain ⟨first, later, shape⟩ := List.exists_cons_of_ne_nil (@Nat.toDigits_ne_nil n 10)
  refine ⟨first, later, ?_, ?_⟩
  · rw [Nat.toString_eq_ofList_toDigits, String.toList_ofList, shape]
  · exact @Nat.isDigit_of_mem_toDigits 10 n first (by omega) (by omega) (by simp [shape])

theorem readNumber_natural (n : Nat) {rest : List Char} (ends : EndsNumber rest) :
    readNumber ((toString n).toList ++ rest) = some (natural n, rest) := by
  obtain ⟨first, later, shape, digit⟩ := isDigit_head_toString n
  unfold readNumber
  split
  · next minus =>
      rw [shape, List.cons_append] at minus
      rw [(List.cons.inj minus).1] at digit
      exact absurd digit (by decide)
  · rw [Nat.toString_eq_ofList_toDigits, String.toList_ofList, readUnsigned_toDigits n ends]
    simp [decimalValue_toDigits]

end ApiCompat.Json
