import ApiCompat.Proofs.Signature.Concatenation
import ApiCompat.Proofs.Token.Scan

/-!
# The header stands before the first lexeme

A header is a comment, and no line before it has any content.  So it is part of
what stands before the first lexeme of the text, and two texts that agree there
state the same version (`resolveMode_gap`).
-/

set_option autoImplicit false

namespace ApiCompat.Signature

/-! ## Lines -/

theorem splitLines_run {run : List Char} (oneLine : '\n' ∉ run) (rest : List Char) :
    ∃ line lines, splitLines rest = line :: lines ∧
      splitLines (run ++ rest) = (run ++ line) :: lines := by
  obtain ⟨line, lines, shape⟩ := List.exists_cons_of_ne_nil (splitLines_ne_nil rest)
  refine ⟨line, lines, shape, ?_⟩
  induction run with
  | nil => exact shape
  | cons c run ih =>
      obtain ⟨notFeed, later⟩ := not_or.mp (mt List.mem_cons.mpr oneLine)
      rw [List.cons_append, splitLines, if_neg (Ne.symm notFeed), ih later]
      rfl

/-! ## The gap before the first lexeme -/

/-- The first character of a gap, and the state behind it. -/
theorem splitGap_head {inComment : Bool} {text gap rest : List Char} {c : Char}
    (cut : splitGap inComment text = (c :: gap, rest)) :
    ∃ inside later, text = c :: later ∧ splitGap inside later = (gap, rest) ∧
      (c = '\n' → inside = false) ∧
      (c ≠ '\n' → (if inComment then inside = true else isGapChar c = true ∨ inside = true)) := by
  cases text with
  | nil => simp [splitGap] at cut
  | cons first later =>
      simp only [splitGap] at cut
      split at cut
      · next inside =>
          obtain ⟨whole, rfl⟩ := Prod.mk.inj cut
          obtain ⟨rfl, rfl⟩ := List.cons.inj whole
          refine ⟨_, later, rfl, rfl, ?_, ?_⟩ <;> simp [inside]
      · next outside =>
          split at cut
          · next blank =>
              obtain ⟨whole, rfl⟩ := Prod.mk.inj cut
              obtain ⟨rfl, rfl⟩ := List.cons.inj whole
              exact ⟨false, later, rfl, rfl, fun _ => rfl, fun _ => by simp [outside, blank]⟩
          · split at cut
            · next opening =>
                obtain ⟨whole, rfl⟩ := Prod.mk.inj cut
                obtain ⟨rfl, rfl⟩ := List.cons.inj whole
                refine ⟨true, later, rfl, rfl, fun feed => ?_, fun _ => by simp [outside]⟩
                rw [opening.1] at feed
                exact absurd feed (by decide)
            · cases cut

/-- Behind a line feed in a gap the gap goes on as if it began there. -/
theorem splitGap_behind {inComment : Bool} {text front back rest : List Char}
    (cut : splitGap inComment text = (front ++ '\n' :: back, rest)) :
    splitGap false (back ++ rest) = (back, rest) := by
  induction front generalizing inComment text with
  | nil =>
      obtain ⟨inside, later, rfl, cutLater, feed, _⟩ := splitGap_head cut
      obtain rfl := feed rfl
      have whole := splitGap_append false later
      rw [cutLater] at whole
      rwa [whole]
  | cons c front ih =>
      obtain ⟨inside, later, rfl, cutLater, _⟩ := splitGap_head cut
      exact ih cutLater

/-- A comment in front of a lexeme ends with its line. -/
theorem feed_of_inComment {text gap rest : List Char} {c : Char}
    (cut : splitGap true text = (gap, c :: rest)) : '\n' ∈ gap := by
  induction gap generalizing text with
  | nil =>
      cases text with
      | nil => cases cut
      | cons first later => simp [splitGap] at cut
  | cons first gap ih =>
      obtain ⟨inside, later, rfl, cutLater, _, goesOn⟩ := splitGap_head cut
      by_cases feed : first = '\n'
      · exact feed ▸ List.mem_cons_self
      · obtain rfl : inside = true := by simpa using goesOn feed
        exact List.mem_cons_of_mem _ (ih cutLater)

theorem blank_of_splitGap {text gap rest : List Char} {c : Char}
    (cut : splitGap false text = (gap, c :: rest)) (oneLine : '\n' ∉ gap) :
    ∀ blank ∈ gap, isGapChar blank = true := by
  induction gap generalizing text with
  | nil => simp
  | cons first gap ih =>
      obtain ⟨notFeed, laterLine⟩ := not_or.mp (mt List.mem_cons.mpr oneLine)
      obtain ⟨inside, later, rfl, cutLater, _, goesOn⟩ := splitGap_head cut
      have notInside : inside = false := by
        cases inside with
        | false => rfl
        | true => exact absurd (feed_of_inComment cutLater) laterLine
      subst notInside
      have blank : isGapChar first = true := by simpa using goesOn (Ne.symm notFeed)
      exact List.forall_mem_cons.mpr ⟨blank, ih cutLater laterLine⟩

theorem isBlank_of_isGapChar {c : Char} (gap : isGapChar c = true) : isBlank c = true := by
  simp only [isGapChar, Bool.or_eq_true, beq_iff_eq] at gap
  rcases gap with (((rfl | rfl) | rfl) | rfl) | rfl <;> decide

/-- A line that begins with a letter states no version. -/
theorem statedVersion?_firstLine {text gap rest : List Char}
    (cut : splitGap false text = (gap, 'p' :: rest)) (oneLine : '\n' ∉ gap) :
    statedVersion? text = none := by
  have whole := splitGap_append false text
  rw [cut] at whole
  obtain ⟨line, lines, shape, split⟩ := splitLines_run oneLine ('p' :: rest)
  obtain ⟨line, rfl⟩ : ∃ line', line = 'p' :: line' := by
    obtain ⟨line', lines', shape', split'⟩ := @splitLines_run ['p'] (by decide) rest
    have split' : splitLines ('p' :: rest) = ('p' :: line') :: lines' := split'
    exact ⟨line', (List.cons.inj (shape.symm.trans split')).1⟩
  have trimmed : trimFront (gap ++ 'p' :: line) = 'p' :: line := by
    have blanks := fun c member => isBlank_of_isGapChar (blank_of_splitGap cut oneLine c member)
    have solid : isBlank 'p' = false := by decide
    rw [trimFront, List.dropWhile_append_of_pos blanks]
    simp [solid]
  obtain ⟨content, shape⟩ : ∃ content, trim (gap ++ 'p' :: line) = 'p' :: content := by
    have solid : isBlank 'p' = false := by decide
    rw [trim, trimmed, trimBack]
    cases trimBack line with
    | nil => exact ⟨[], by simp [solid]⟩
    | cons c kept => exact ⟨c :: kept, rfl⟩
  rw [statedVersion?_eq 1, ← whole, split, firstContentFrom, shape]
  rfl

/-- Texts that agree up to the first lexeme state the same version. -/
theorem statedVersion?_gap {text text' gap rest rest' : List Char}
    (cut : splitGap false text = (gap, 'p' :: rest))
    (cut' : splitGap false text' = (gap, 'p' :: rest')) :
    statedVersion? text = statedVersion? text' := by
  induction size : gap.length using Nat.strongRecOn generalizing text text' gap with
  | ind size ih =>
      by_cases oneLine : '\n' ∈ gap
      · obtain ⟨front, back, rfl⟩ := List.append_of_mem oneLine
        have whole := splitGap_append false text
        have whole' := splitGap_append false text'
        rw [cut] at whole
        rw [cut'] at whole'
        have later := ih back.length (by rw [← size]; simp; omega) (splitGap_behind cut)
          (splitGap_behind cut') rfl
        rw [← whole, ← whole', List.append_assoc, List.append_assoc, List.cons_append,
          List.cons_append, statedVersion?_lines, statedVersion?_lines, later]
      · rw [statedVersion?_firstLine cut oneLine, statedVersion?_firstLine cut' oneLine]

theorem resolveMode_congr {text text' : List Char} {requested : Option NullMode} {mode : NullMode}
    (same : statedVersion? text = statedVersion? text')
    (resolved : resolveMode text requested = .ok mode) :
    resolveMode text' requested = .ok mode := by
  unfold statedVersion? at same
  unfold resolveMode at resolved ⊢
  cases stated : header? text with
  | none =>
      rw [stated] at same resolved
      rw [Option.map_eq_none_iff.mp same.symm]
      exact resolved
  | some place =>
      rw [stated] at same resolved
      obtain ⟨⟨line, version⟩, stated', rfl⟩ := Option.map_eq_some_iff.mp same.symm
      rw [stated']
      cases known : NullMode.ofVersion? place.2 with
      | none => simp [known] at resolved
      | some implied =>
          simp only [known] at resolved ⊢
          cases requested with
          | none => exact resolved
          | some asked =>
              by_cases agree : asked = implied
              · simpa [agree] using resolved
              · simp [agree] at resolved

/-! ## Texts -/

theorem splitGap_of_tokenize {text : String} {first : Lexeme} {rest : List Lexeme}
    (tokenized : tokenize text = .ok (first :: rest)) (isWord : first.isWord "package" = true) :
    ∃ later, splitGap false text.toList = (first.gap.toList, 'p' :: later) := by
  simp only [Lexeme.isWord, Bool.and_eq_true, beq_iff_eq] at isWord
  obtain ⟨tail, _, scans⟩ := scans_of_tokenizeFrom 0 1 text.toList _ tokenized
  cases scans with
  | @word _ gap rest after _ _ cut token spaced _ =>
      have front := (firstToken_append _ _ _ _ token).1
      have gapText : gap = first.gap.toList := by
        rw [← spaced first.gap rfl, String.toList_ofList]
      have text : first.word.text = "package" := isWord.2
      rw [text] at front
      rw [cut, gapText, ← front]
      exact ⟨_, rfl⟩

/-- Texts that begin with the same word behind the same gap are read in the same null mode. -/
theorem resolveMode_gap {text text' : String} {first first' : Lexeme} {rest rest' : List Lexeme}
    (tokenized : tokenize text = .ok (first :: rest))
    (tokenized' : tokenize text' = .ok (first' :: rest')) (isWord : first.isWord "package" = true)
    (same : first.word.Matches first') {requested : Option NullMode} {mode : NullMode}
    (resolved : resolveMode text.toList requested = .ok mode) :
    resolveMode text'.toList requested = .ok mode := by
  have isWord' : first'.isWord "package" = true := by
    simp only [Lexeme.isWord, Bool.and_eq_true, beq_iff_eq] at isWord ⊢
    exact ⟨same.1.trans isWord.1, same.2.1.trans isWord.2⟩
  obtain ⟨later, cut⟩ := splitGap_of_tokenize tokenized isWord
  obtain ⟨later', cut'⟩ := splitGap_of_tokenize tokenized' isWord'
  rw [same.2.2 first.gap rfl] at cut'
  exact resolveMode_congr (statedVersion?_gap cut cut') resolved

end ApiCompat.Signature
