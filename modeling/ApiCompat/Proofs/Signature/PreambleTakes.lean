import ApiCompat.Proofs.Modifiers.Words
import ApiCompat.Proofs.Signature.TypeTakes

/-!
# Reading written preambles

Annotations, the nullness mark and the modifier words in front of a
declaration amount to the modifiers from which they were written.
-/

set_option autoImplicit false

namespace ApiCompat.Signature

open Reader

variable {mode : NullMode} {good : Prop} {back : List Word}

def EndsPreamble (back : List Word) : Prop :=
  ∀ word ∈ back.head?,
    (word.kind = .atSign → ∃ next ∈ back.tail.head?, next.text = "interface") ∧
    (word.kind = .identifier → ModifierWord.ofWord? word.text = none)

/-- The next word does not belong to an annotation before it. -/
structure EndsAnnotation (back : List Word) : Prop where
  noDot : NotNext .dot back
  noArguments : NotNext .leftParen back

theorem endsAnnotation_of_ne {word : Word} {later : List Word} (noDot : word.kind ≠ .dot)
    (noArguments : word.kind ≠ .leftParen) : EndsAnnotation (word :: later) :=
  ⟨notNext_of_ne noDot, notNext_of_ne noArguments⟩

theorem endsAnnotation_ident (word : String) (later : List Word) :
    EndsAnnotation (.ident word :: later) :=
  endsAnnotation_of_ne TokenKind.noConfusion TokenKind.noConfusion

theorem ends_ident {word : String} (noModifier : ModifierWord.ofWord? word = none)
    (later : List Word) :
    EndsPreamble (.ident word :: later) ∧ EndsAnnotation (.ident word :: later) := by
  refine ⟨?_, endsAnnotation_ident word later⟩
  intro word' next
  obtain rfl := Option.some.inj next
  exact ⟨TokenKind.noConfusion, fun _ => noModifier⟩

theorem endsPreamble_punctuation {word : Word} (notSign : word.kind ≠ .atSign)
    (notIdent : word.kind ≠ .identifier) (later : List Word) : EndsPreamble (word :: later) := by
  intro word' next
  obtain rfl := Option.some.inj next
  exact ⟨fun sign => absurd sign notSign, fun ident => absurd ident notIdent⟩

theorem ends_less (later : List Word) :
    EndsPreamble (.less :: later) ∧ EndsAnnotation (.less :: later) :=
  ⟨endsPreamble_punctuation (by decide) (by decide) later,
    endsAnnotation_of_ne TokenKind.noConfusion TokenKind.noConfusion⟩

theorem ends_ownTypeWords {type : TypeRef} (noModifier : type.beginsWithModifier = false)
    (later : List Word) :
    EndsPreamble (ownTypeWords mode type ++ later) ∧
      EndsAnnotation (ownTypeWords mode type ++ later) := by
  obtain ⟨word, rest, shape, rfl | rfl⟩ := ownTypeWords_cons mode type
  · rw [shape]
    exact ⟨endsPreamble_punctuation (by decide) (by decide) _,
      endsAnnotation_of_ne TokenKind.noConfusion TokenKind.noConfusion⟩
  · rw [shape]
    have unknown : ModifierWord.ofWord? (firstPart type.name) = none := by
      simpa [TypeRef.beginsWithModifier] using noModifier
    exact ends_ident unknown _

theorem mergeNullness_agree {declared : Option Nullness} {nullness : Nullness}
    (agree : ∀ other ∈ declared, other = nullness) (line : Nat) :
    mergeNullness declared nullness line = pure (some nullness) := by
  cases declared with
  | none => rfl
  | some other => rw [mergeNullness, if_pos (agree other rfl)]

/-! ## Single rounds -/

section Rounds

variable {context : Context} {next : Lexeme} {lexemes rest : List Lexeme} {rounds : Nat}
  {sofar : Preamble}

theorem preambleFrom_word {modifiers : Modifiers} (kind : next.kind = .identifier)
    (applied : sofar.modifiers.applyWord? next.text = some modifiers) :
    preambleFrom (rounds + 1) sofar context (next :: lexemes) =
      preambleFrom rounds { sofar with modifiers } context lexemes := by
  rw [preambleFrom, bind_ok (remaining_apply context (next :: lexemes))]
  simp only [kind, reduceCtorEq, if_false, if_true, applied]
  rw [bind_ok (continueWith_apply context _ lexemes)]

theorem preambleFrom_atSign {name source : String} (kind : next.kind = .atSign)
    (notInterface : lexemes.head?.any (fun lexeme => lexeme.text == "interface") = false)
    (read : annotationUse context (next :: lexemes) = .ok ((name, source), rest))
    (other : Nullness.ofAnnotation? name = none) :
    preambleFrom (rounds + 1) sofar context (next :: lexemes) =
      preambleFrom rounds { sofar with modifiers := sofar.modifiers.annotate source } context
        rest := by
  rw [preambleFrom, bind_ok (remaining_apply context (next :: lexemes))]
  simp only [kind, notInterface, if_true, Bool.false_eq_true, if_false]
  rw [bind_ok read]
  simp only [other]

theorem preambleFrom_mark {name source : String} {nullness : Nullness} (kind : next.kind = .atSign)
    (notInterface : lexemes.head?.any (fun lexeme => lexeme.text == "interface") = false)
    (read : annotationUse context (next :: lexemes) = .ok ((name, source), rest))
    (known : Nullness.ofAnnotation? name = some nullness)
    (agree : ∀ other ∈ sofar.nullness, other = nullness) :
    preambleFrom (rounds + 1) sofar context (next :: lexemes) =
      preambleFrom rounds { sofar with nullness := some nullness } context rest := by
  rw [preambleFrom, bind_ok (remaining_apply context (next :: lexemes))]
  simp only [kind, notInterface, if_true, Bool.false_eq_true, if_false]
  rw [bind_ok read]
  simp only [known, mergeNullness_agree agree]
  rfl

end Rounds

theorem takes_preambleFrom_none (rounds : Nat) (sofar : Preamble) (ends : EndsPreamble back) :
    Takes mode good (preambleFrom rounds sofar) [] back (· = sofar) := by
  cases rounds with
  | zero => exact takes_pure rfl
  | succ rounds =>
      intro context taken rest _ spells behind
      cases spells
      refine .inl ⟨sofar, ?_, rfl⟩
      rw [List.nil_append, preambleFrom, bind_ok (remaining_apply context rest)]
      cases behind with
      | nil => rfl
      | @cons word lexeme words lexemes matched behind =>
          obtain ⟨interface, noWord⟩ := ends word rfl
          by_cases sign : lexeme.kind = .atSign
          · obtain ⟨next, second, isInterface⟩ := interface (matched.1 ▸ sign)
            have announced :
                lexemes.head?.any (fun lexeme => lexeme.text == "interface") = true := by
              cases behind with
              | nil => cases second
              | cons same _ =>
                  obtain rfl := Option.some.inj second
                  simp [same.2.1, isInterface]
            simp only [sign, announced, if_true]
            rfl
          · by_cases isWord : lexeme.kind = .identifier
            · have unknown : ModifierWord.ofWord? lexeme.text = none := by
                rw [matched.2.1]
                exact noWord (matched.1 ▸ isWord)
              simp only [isWord, reduceCtorEq, if_false, if_true, Modifiers.applyWord?, unknown]
              rfl
            · simp only [sign, isWord, if_false]
              rfl

/-! ## Rounds on words -/

section RoundsOnWords

variable {rounds : Nat} {sofar : Preamble} {later : List Word} {post : Preamble → Prop}

/-- A round takes a modifier word, and the other rounds what is behind it. -/
theorem takes_preamble_modifier {word : String} {meaning : ModifierWord}
    (known : ModifierWord.ofWord? word = some meaning)
    (goOn : Takes mode good
      (preambleFrom rounds { sofar with modifiers := sofar.modifiers.add meaning }) later back
      post) :
    Takes mode good (preambleFrom (rounds + 1) sofar) (.ident word :: later) back post := by
  intro context taken rest inMode spells behind
  cases spells with
  | @cons _ lexeme _ _ matched spells =>
      have applied : sofar.modifiers.applyWord? lexeme.text =
          some (sofar.modifiers.add meaning) := by
        rw [matched.2.1, Modifiers.applyWord?]
        exact congrArg (Option.map _) known
      rw [List.cons_append, preambleFrom_word matched.1 applied]
      exact goOn context _ rest inMode spells behind

/-- The lexemes of an annotation declare no annotation type, whatever follows. -/
theorem announced_of_spells {sign first : Word} {more : List Word} (isSign : sign.kind = .atSign)
    (free : first.text ≠ "interface") {taken : List Lexeme}
    (spells : Spells (sign :: first :: more) taken) (rest : List Lexeme) : ∃ next later,
      taken ++ rest = next :: later ∧ next.kind = .atSign ∧
        later.head?.any (fun lexeme => lexeme.text == "interface") = false := by
  cases spells with
  | @cons _ next _ _ signed spells =>
      cases spells with
      | @cons _ second _ later named _ =>
          refine ⟨next, second :: (later ++ rest), rfl, signed.1.trans isSign, ?_⟩
          simp [named.2.1, free]

variable {sign first : Word} {more : List Word} {name : String}

/-- A round takes an annotation that is kept as it is written. -/
theorem takes_preamble_kept (holds : String → Prop) (isSign : sign.kind = .atSign)
    (free : first.text ≠ "interface") (unknown : Nullness.ofAnnotation? name = none)
    (use : Takes mode True annotationUse (sign :: first :: more) (later ++ back)
      fun found => found.1 = name ∧ holds found.2)
    (goOn : ∀ source, holds source → Takes mode good
      (preambleFrom rounds { sofar with modifiers := sofar.modifiers.annotate source }) later back
      post) :
    Takes mode good (preambleFrom (rounds + 1) sofar) (sign :: first :: more ++ later) back
      post := by
  intro context taken rest inMode spells behind
  obtain ⟨own, taken, rfl, spellsOwn, spellsLater⟩ := Spells.split spells
  obtain ⟨⟨_, source⟩, read, rfl, held⟩ :=
    use.run inMode spellsOwn (Spells.append spellsLater behind)
  obtain ⟨next, beyond, shape, isAt, announced⟩ :=
    announced_of_spells isSign free spellsOwn (taken ++ rest)
  rw [List.append_assoc]
  rw [shape] at read ⊢
  rw [preambleFrom_atSign isAt announced read unknown]
  exact goOn source held context taken rest inMode spellsLater behind

/-- A round takes an annotation of nullness that agrees with what was read before. -/
theorem takes_preamble_marked {nullness : Nullness} (isSign : sign.kind = .atSign)
    (free : first.text ≠ "interface") (known : Nullness.ofAnnotation? name = some nullness)
    (agree : ∀ other ∈ sofar.nullness, other = nullness)
    (use : Takes mode True annotationUse (sign :: first :: more) (later ++ back)
      fun found => found.1 = name)
    (goOn : Takes mode good (preambleFrom rounds { sofar with nullness := some nullness }) later
      back post) :
    Takes mode good (preambleFrom (rounds + 1) sofar) (sign :: first :: more ++ later) back
      post := by
  intro context taken rest inMode spells behind
  obtain ⟨own, taken, rfl, spellsOwn, spellsLater⟩ := Spells.split spells
  obtain ⟨⟨_, source⟩, read, rfl⟩ := use.run inMode spellsOwn (Spells.append spellsLater behind)
  obtain ⟨next, beyond, shape, isAt, announced⟩ :=
    announced_of_spells isSign free spellsOwn (taken ++ rest)
  rw [List.append_assoc]
  rw [shape] at read ⊢
  rw [preambleFrom_mark isAt announced read known agree]
  exact goOn context taken rest inMode spellsLater behind

end RoundsOnWords

/-! ## All rounds -/

theorem takes_modifierWords {words : List String}
    (known : ∀ word ∈ words, ModifierWord.ofWord? word ≠ none) {rounds : Nat}
    (enough : words.length ≤ rounds) (sofar : Preamble) (ends : EndsPreamble back) :
    Takes mode good (preambleFrom rounds sofar) (words.map Word.ident) back
      (· = { sofar with modifiers := sofar.modifiers.applyWords words }) := by
  induction words generalizing rounds sofar with
  | nil => exact takes_preambleFrom_none rounds sofar ends
  | cons word words ih =>
      cases rounds with
      | zero => simp at enough
      | succ rounds =>
          cases meaning : ModifierWord.ofWord? word with
          | none => exact absurd meaning (known word List.mem_cons_self)
          | some said =>
              have step : sofar.modifiers.applyWords (word :: words) =
                  (sofar.modifiers.add said).applyWords words := by
                simp [Modifiers.applyWords, Modifiers.applyWord?, meaning]
              rw [step]
              exact takes_preamble_modifier meaning
                (ih (fun next member => known next (List.mem_cons_of_mem _ member))
                  (Nat.le_of_succ_le_succ enough) { sofar with modifiers := _ })

theorem takes_preamble_mark {later : List Word} {post : Preamble → Prop} {text : String}
    {nullness : Nullness} {rounds : Nat} {sofar : Preamble}
    (single : nameWords text = [.ident text]) (notInterface : text ≠ "interface")
    (known : Nullness.ofAnnotation? text = some nullness) (first : sofar.nullness = none)
    (ends : EndsAnnotation (later ++ back))
    (next : Takes mode good (preambleFrom rounds { sofar with nullness := some nullness }) later back
      post) :
    Takes mode good (preambleFrom (rounds + 1) sofar) (.atSign :: .ident text :: later) back
      post :=
  takes_preamble_marked rfl notInterface known (by simp [first])
    (takes_mark single ends.noDot ends.noArguments) next

theorem takes_preamble_annotations {later : List Word} {post : Preamble → Prop}
    {texts : List String} (captured : ∀ text ∈ texts, CapturedAnnotation text) {rounds : Nat}
    (enough : texts.length + later.length ≤ rounds) (sofar : Preamble)
    (ends : EndsAnnotation (later ++ back))
    (next : ∀ rounds, later.length ≤ rounds →
      Takes mode good (preambleFrom rounds { sofar with modifiers :=
        { sofar.modifiers with annotations := sofar.modifiers.annotations ++ texts } }) later back
        post) :
    Takes mode good (preambleFrom rounds sofar) (texts.flatMap annotationWords ++ later) back
      post := by
  induction texts generalizing rounds sofar with
  | nil =>
      have same : { sofar with modifiers :=
          { sofar.modifiers with annotations := sofar.modifiers.annotations ++ [] } } = sofar := by
        rw [List.append_nil]
      rw [same] at next
      exact next rounds (by simpa using enough)
  | cons text texts ih =>
      cases rounds with
      | zero => simp at enough
      | succ rounds =>
          have inLater := fun next member => captured next (List.mem_cons_of_mem text member)
          obtain ⟨sign, first, more, shape, signKind, notInterface, name, other, takes⟩ :=
            (captured text List.mem_cons_self).shape
          have behindText : ∀ kind, kind ≠ TokenKind.atSign → NotNext kind (later ++ back) →
              NotNext kind (texts.flatMap annotationWords ++ later ++ back) := by
            intro kind notSign stop
            cases texts with
            | nil => exact stop
            | cons text' texts =>
                obtain ⟨sign', first', more', shape', signKind', _⟩ :=
                  (captured text' (by simp)).shape
                simp only [List.flatMap_cons, shape', List.cons_append]
                rw [notNext_cons, signKind']
                exact notSign.symm
          have use : Takes mode True annotationUse (annotationWords text) _
              fun found => found.1 = name ∧ found.2 = text :=
            (takes mode True _ (behindText .dot (by decide) ends.noDot)
              (behindText .leftParen (by decide) ends.noArguments)).mono fun _ => Prod.mk.inj
          have fewer : texts.length + later.length ≤ rounds := by
            simp only [List.length_cons] at enough
            omega
          rw [List.flatMap_cons, List.append_assoc]
          rw [shape] at use ⊢
          refine takes_preamble_kept (· = text) signKind notInterface other use
            fun source same => ?_
          subst same
          refine ih inLater fewer { sofar with modifiers := sofar.modifiers.annotate source } ?_
          simpa [Modifiers.annotate] using next

/-! ## Whole preambles -/

/-- The nullness that the preamble declares for a member's own type. -/
def ownDeclared (mode : NullMode) (ownType : Option TypeRef) : Option Nullness :=
  ownType.bind fun type => declaredBefore mode type.nullness

theorem EndsAnnotation.idents {words : List String} (ends : EndsAnnotation back) :
    EndsAnnotation (words.map Word.ident ++ back) := by
  cases words with
  | nil => exact ends
  | cons word words => exact endsAnnotation_ident word _

theorem notNext_beforeWords {kind : TokenKind} {nullness : Nullness} (other : kind ≠ .atSign)
    (stop : NotNext kind back) : NotNext kind (beforeWords mode nullness ++ back) := by
  rcases beforeWords_cases mode nullness with ⟨nothing, _⟩ | ⟨later, marked⟩
  · rw [nothing]
    exact stop
  · rw [marked]
    exact notNext_of_ne other.symm

theorem EndsAnnotation.ownMark (mode : NullMode) (ends : EndsAnnotation back)
    (ownType : Option TypeRef) : EndsAnnotation (ownMarkWords mode ownType ++ back) := by
  cases ownType with
  | none => exact ends
  | some type =>
      exact ⟨notNext_beforeWords (by decide) ends.noDot,
        notNext_beforeWords (by decide) ends.noArguments⟩

theorem takes_ownMark {words : List String}
    (known : ∀ word ∈ words, ModifierWord.ofWord? word ≠ none) (ownType : Option TypeRef)
    {rounds : Nat}
    (enough : (ownMarkWords mode ownType ++ words.map Word.ident).length ≤ rounds)
    (modifiers : Modifiers) (ends : EndsPreamble back)
    (behind : EndsAnnotation (words.map Word.ident ++ back)) :
    Takes mode good (preambleFrom rounds { modifiers })
      (ownMarkWords mode ownType ++ words.map Word.ident) back
      (· = { modifiers := modifiers.applyWords words, nullness := ownDeclared mode ownType }) := by
  have plain : ∀ sofar rounds, words.length ≤ rounds →
      Takes mode good (preambleFrom rounds sofar) (words.map Word.ident) back
        (· = { sofar with modifiers := sofar.modifiers.applyWords words }) :=
    fun sofar rounds enough => takes_modifierWords known enough sofar ends
  rw [List.length_append, List.length_map] at enough
  cases ownType with
  | none => exact plain { modifiers } rounds (by omega)
  | some type =>
      obtain ⟨name, args, bound, dims, varargs, nullness⟩ := type
      cases mode with
      | nullAware => exact plain { modifiers } rounds (by omega)
      | legacy =>
          cases nullness with
          | unspecified => exact plain { modifiers } rounds (by omega)
          | nullable =>
              cases rounds with
              | zero => simp [ownMarkWords, beforeWords, annotationMark] at enough
              | succ rounds =>
                  simp only [ownMarkWords, beforeWords, annotationMark, List.length_cons,
                    List.length_nil] at enough
                  exact takes_preamble_mark rfl (by decide) (by decide) rfl behind
                    (plain { modifiers, nullness := some .nullable } rounds (by omega))
          | nonNull =>
              cases rounds with
              | zero => simp [ownMarkWords, beforeWords, annotationMark] at enough
              | succ rounds =>
                  simp only [ownMarkWords, beforeWords, annotationMark, List.length_cons,
                    List.length_nil] at enough
                  exact takes_preamble_mark rfl (by decide) (by decide) rfl behind
                    (plain { modifiers, nullness := some .nonNull } rounds (by omega))

theorem length_le_annotations {texts : List String}
    (captured : ∀ text ∈ texts, CapturedAnnotation text) :
    texts.length ≤ (texts.flatMap annotationWords).length := by
  induction texts with
  | nil => exact Nat.le_refl 0
  | cons text texts ih =>
      obtain ⟨sign, first, more, shape, _⟩ := (captured text List.mem_cons_self).shape
      have later := ih fun next member => captured next (List.mem_cons_of_mem _ member)
      simp only [List.flatMap_cons, shape, List.length_append, List.length_cons]
      omega

/-- Annotations, a mark and any modifier words. -/
theorem takes_preamble_words {texts : List String}
    (captured : ∀ text ∈ texts, CapturedAnnotation text) (ownType : Option TypeRef)
    {words : List String} (known : ∀ word ∈ words, ModifierWord.ofWord? word ≠ none)
    (ends : EndsPreamble back) (behind : EndsAnnotation (words.map Word.ident ++ back)) :
    Takes mode good preamble
      (texts.flatMap annotationWords ++ (ownMarkWords mode ownType ++ words.map Word.ident)) back
      (· = { modifiers := Modifiers.applyWords { annotations := texts } words,
             nullness := ownDeclared mode ownType }) := by
  refine Takes.peek takes_remaining fun lexemes spells => ?_
  have enough : texts.length + (ownMarkWords mode ownType ++ words.map Word.ident).length ≤
      lexemes.length := by
    have bound := length_le_annotations captured
    rw [← spells.length_eq]
    simp only [List.length_append] at bound ⊢
    omega
  have behindTexts := behind.ownMark mode ownType
  rw [← List.append_assoc] at behindTexts
  exact takes_preamble_annotations captured enough {} behindTexts fun rounds enough =>
    takes_ownMark known ownType enough { annotations := texts } ends behind

theorem takes_preamble {modifiers : Modifiers} (formed : modifiers.Formed)
    (ownType : Option TypeRef) (ends : EndsPreamble back ∧ EndsAnnotation back) :
    Takes mode good preamble (preambleWords mode modifiers ownType) back
      (· = { modifiers, nullness := ownDeclared mode ownType }) := by
  have whole : Takes mode good preamble (preambleWords mode modifiers ownType) back _ :=
    takes_preamble_words formed ownType modifiers.ofWord?_words ends.1 ends.2.idents
  rwa [modifiers.applyWords_words] at whole

end ApiCompat.Signature
