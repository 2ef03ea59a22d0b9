import ApiCompat.Proofs.Rerun.Types

/-!
# Reading members twice

Both runs take the words of the same member.  Its line is that of its keyword.
-/

set_option autoImplicit false

namespace ApiCompat.Signature

open Reader Grammar

variable {run : Rerun} {lexemes : List Lexeme} {α β τ : Type}

/-- Each run goes on behind the lexemes that it cut off. -/
theorem Repeats.continueWith (taken : List Lexeme) {rest : List Lexeme} {reader reader' : Reader α}
    {post : List Word → α → α → Prop}
    (second : Repeats run rest reader reader' fun words =>
      post (taken.map Lexeme.bare ++ words)) :
    Repeats run (taken ++ rest) (Reader.continueWith rest >>= fun _ => reader)
      (Reader.continueWith (run.again rest) >>= fun _ => reader') post := by
  intro settled
  rw [bind_ok (continueWith_apply run.context (taken ++ rest) rest),
    bind_ok (continueWith_apply run.context' (run.again (taken ++ rest)) (run.again rest))]
  rcases second (settled.suffix taken) with failed |
    ⟨value, value', words, taken', rest', rfl, spells, holds, read⟩
  · exact .inl failed
  · exact .inr ⟨value, value', _, taken ++ taken', rest', (List.append_assoc _ _ _).symm,
      (spells_bare taken).append spells, holds, read⟩

/-! ## What stands in front of a declaration -/

theorem preambleFrom_nil (rounds : Nat) (sofar : Preamble) (context : Context) :
    preambleFrom rounds sofar context [] = .ok (sofar, []) := by
  cases rounds with
  | zero => rfl
  | succ rounds => rfl

def addFront (sofar : Preamble) (front : List FrontTree) : Preamble :=
  { modifiers := front.foldl FrontTree.apply sofar.modifiers
    nullness := sofar.nullness.or (front.filterMap FrontTree.nullness?).head? }

theorem addFront_nil (sofar : Preamble) : addFront sofar [] = sofar := by
  simp [addFront]

theorem frontWords_cons (item : FrontTree) (front : List FrontTree) :
    frontWords (item :: front) = item.words ++ frontWords front :=
  List.flatMap_cons

/-- A single lexeme is no annotation. -/
theorem repeats_annotationUse_short {next next' : String × String → Reader α} (last : Lexeme)
    {post : List Word → α → α → Prop} :
    Repeats run [last] (annotationUse >>= next) (annotationUse >>= next') post := by
  refine repeats_annotationUse.bind fun found found' words rest taken length => ?_
  obtain ⟨_, use, rfl, _⟩ := taken
  have short : use.words.length ≤ 1 := by
    simp only [List.length_singleton] at length
    omega
  simp [AnnotationTree.words, Name.words] at short

def preambleUse (rounds line : Nat) (sofar : Preamble) : Reader Preamble := do
  let (name, source) ← annotationUse
  match Nullness.ofAnnotation? name with
  | some nullness =>
      let nullness ← mergeNullness sofar.nullness nullness line
      preambleFrom rounds { sofar with nullness }
  | none => preambleFrom rounds { sofar with modifiers := sofar.modifiers.annotate source }

def preambleStep (rounds : Nat) (sofar : Preamble) (next : Lexeme) (rest : List Lexeme) :
    Reader Preamble :=
  if next.kind = .atSign then
    if rest.head?.any (fun lexeme => lexeme.text == "interface") then pure sofar
    else preambleUse rounds next.line sofar
  else if next.kind = .identifier then
    match sofar.modifiers.applyWord? next.text with
    | some modifiers => do
        continueWith rest
        preambleFrom rounds { sofar with modifiers }
    | none => pure sofar
  else pure sofar

section PreambleStep

variable {rounds rounds' : Nat} {sofar : Preamble} {next : Lexeme} {rest : List Lexeme}

abbrev FrontTold (sofar : Preamble) : List Word → Preamble → Preamble → Prop :=
  ToldBy (fun front => Agree (sofar.nullness.toList ++ frontMarks front)) frontWords
    (addFront sofar) (addFront sofar)

theorem frontTold_nil (sofar : Preamble) : FrontTold sofar [] sofar sofar :=
  ⟨[], by simpa [frontMarks] using agree_toList sofar.nullness, rfl, (addFront_nil sofar).symm,
    (addFront_nil sofar).symm⟩

theorem frontTold_cons (item : FrontTree) {nextSofar : Preamble}
    (added : addFront sofar [item] = nextSofar)
    (same : ∀ mark ∈ item.nullness?, ∀ other ∈ sofar.nullness, other = mark)
    {words : List Word} {value value' : Preamble} (told : FrontTold nextSofar words value value') :
    FrontTold sofar (item.words ++ words) value value' := by
  obtain ⟨front, agree, rfl, rfl, rfl⟩ := told
  subst added
  have grown : addFront (addFront sofar [item]) front = addFront sofar (item :: front) := by
    cases nullness : item.nullness? <;> cases sofar.nullness <;> simp [addFront, nullness]
  refine ⟨item :: front, ?_, (frontWords_cons item front).symm, grown, grown⟩
  cases nullness : item.nullness? with
  | none => simpa [frontMarks, addFront, nullness] using agree
  | some mark =>
      have agree' : Agree (mark :: frontMarks front) := by
        simpa [addFront, nullness, or_declared (same mark nullness)] using agree
      simpa [frontMarks, nullness] using Agree.declared (same mark nullness) agree'

theorem repeats_preambleUse
    (later : ∀ sofar behind, behind.length ≤ rest.length →
      Repeats run behind (preambleFrom rounds sofar) (preambleFrom rounds' sofar)
        (FrontTold sofar)) :
    Repeats run (next :: rest) (preambleUse rounds next.line sofar)
      (preambleUse rounds' (run.move next).line sofar) (FrontTold sofar) := by
  refine repeats_annotationUse.bind fun found found' words behind taken length => ?_
  obtain ⟨rfl, use, rfl, named⟩ := taken
  obtain ⟨name, source⟩ := found'
  have positive := length_annotationWords_pos use
  simp only [List.length_cons] at length
  have known : Nullness.ofAnnotation? name = use.nullness? :=
    congrArg Nullness.ofAnnotation? named
  simp only [known]
  cases nullness : use.nullness? with
  | none =>
      refine (later _ behind (by omega)).mono fun words value value' told => ?_
      refine frontTold_cons (.annotated use source) ?_ ?_ told
      · simp [addFront, FrontTree.apply, FrontTree.nullness?, nullness]
      · simp [FrontTree.nullness?, nullness]
  | some nullness' =>
      refine (repeats_mergeNullness sofar.nullness nullness' (run.line_move next)).peek
        fun merged merged' holds => ?_
      obtain ⟨rfl, rfl, same⟩ := holds
      refine (later _ behind (by omega)).mono fun words value value' told => ?_
      refine frontTold_cons (.annotated use source) ?_ ?_ told
      · simp [addFront, FrontTree.apply, FrontTree.nullness?, nullness, or_declared same]
      · simpa [FrontTree.nullness?, nullness] using same

theorem repeats_preambleWord (isWord : next.kind = .identifier)
    (later : ∀ sofar, Repeats run rest (preambleFrom rounds sofar) (preambleFrom rounds' sofar)
      (FrontTold sofar)) :
    Repeats run (next :: rest)
      (match sofar.modifiers.applyWord? next.text with
        | some modifiers => do
            continueWith rest
            preambleFrom rounds { sofar with modifiers }
        | none => pure sofar)
      (match sofar.modifiers.applyWord? next.text with
        | some modifiers => do
            continueWith (run.again rest)
            preambleFrom rounds' { sofar with modifiers }
        | none => pure sofar)
      (FrontTold sofar) := by
  cases known : ModifierWord.ofWord? next.text with
  | none =>
      simp only [Modifiers.applyWord?, known, Option.map_none]
      exact repeats_pure (frontTold_nil sofar)
  | some meaning =>
      simp only [Modifiers.applyWord?, known, Option.map_some]
      refine Repeats.continueWith [next] ?_
      refine (later _).mono fun words value value' told => ?_
      have isIdent : [next].map Lexeme.bare = [.ident next.text] := by
        simp [Lexeme.bare, Word.ident, isWord]
      rw [isIdent]
      refine frontTold_cons (.modifier ⟨next.text, meaning, known⟩) ?_ ?_ told
      · simp [addFront, FrontTree.apply, FrontTree.nullness?]
      · simp [FrontTree.nullness?]

end PreambleStep

theorem repeats_preambleFrom {rounds rounds' : Nat} (sofar : Preamble)
    (enough : lexemes.length ≤ rounds) (enough' : (run.again lexemes).length ≤ rounds') :
    Repeats run lexemes (preambleFrom rounds sofar) (preambleFrom rounds' sofar)
      (FrontTold sofar) := by
  induction rounds generalizing lexemes rounds' sofar with
  | zero =>
      obtain rfl : lexemes = [] := List.length_eq_zero_iff.mp (Nat.le_zero.mp enough)
      exact repeats_atEnd (frontTold_nil sofar) rfl (preambleFrom_nil rounds' sofar run.context')
  | succ rounds ih =>
      cases lexemes with
      | nil =>
          exact repeats_atEnd (frontTold_nil sofar) rfl
            (preambleFrom_nil rounds' sofar run.context')
      | cons next rest =>
          rw [run.length_again] at enough'
          simp only [List.length_cons] at enough enough'
          obtain ⟨rounds', rfl⟩ : ∃ fewer, rounds' = fewer + 1 :=
            Nat.exists_eq_succ_of_ne_zero (by omega)
          have later : ∀ sofar behind, behind.length ≤ rest.length →
              Repeats run behind (preambleFrom rounds sofar) (preambleFrom rounds' sofar)
                (FrontTold sofar) := by
            intro sofar behind shorter
            exact ih sofar (by omega) (by rw [run.length_again]; omega)
          refine Repeats.remaining ?_
          show Repeats run (next :: rest) (preambleStep rounds sofar next rest)
            (preambleStep rounds' sofar (run.move next) (run.again rest)) (FrontTold sofar)
          simp only [preambleStep, run.kind_move, run.text_move]
          by_cases isSign : next.kind = .atSign
          · simp only [if_pos isSign]
            cases rest with
            | nil =>
                -- The second run might see `interface` here, but the first one fails.
                intro settled
                have short : Repeats run [next] (preambleUse rounds next.line sofar)
                    (preambleUse rounds' (run.move next).line sofar) fun _ _ _ => False :=
                  repeats_annotationUse_short next
                rcases short settled with ⟨fault, failed, failed'⟩ |
                  ⟨_, _, _, _, _, _, _, impossible, _⟩
                · refine .inl ⟨fault, failed, fun none => ?_⟩
                  rw [run.again_nil, none]
                  exact failed' none
                · exact absurd impossible id
            | cons word rest =>
                have seen : (run.again (word :: rest)).head?.any
                    (fun lexeme => lexeme.text == "interface") =
                    (word :: rest).head?.any fun lexeme => lexeme.text == "interface" := by
                  simp [run.text_move]
                rw [seen]
                cases (word :: rest).head?.any fun lexeme => lexeme.text == "interface" with
                | true => exact repeats_pure (frontTold_nil sofar)
                | false => exact repeats_preambleUse later
          · simp only [if_neg isSign]
            by_cases isWord : next.kind = .identifier
            · simp only [if_pos isWord]
              exact repeats_preambleWord isWord fun sofar => later sofar rest (Nat.le_refl _)
            · simp only [if_neg isWord]
              exact repeats_pure (frontTold_nil sofar)

def frontPreamble (front : List FrontTree) : Preamble :=
  { modifiers := frontModifiers front, nullness := frontNullness front }

theorem repeats_preamble :
    Repeats run lexemes preamble preamble
      (ToldBy (fun front => Agree (frontMarks front)) frontWords frontPreamble frontPreamble) := by
  refine Repeats.remaining ?_
  refine (repeats_preambleFrom {} (Nat.le_refl _) (Nat.le_refl _)).mono
    fun words value value' told => ?_
  obtain ⟨front, agree, rfl, rfl, rfl⟩ := told
  exact ⟨front, agree, rfl, rfl, rfl⟩

/-! ## Parameters, exceptions and values -/

theorem repeats_parameter :
    Repeats run lexemes parameter parameter
      (ToldBy (fun parameter => AllConsistent parameter.sites) ParameterTree.words
        (ParameterTree.parameterIn run.mode) (ParameterTree.parameterIn run.mode')) := by
  refine repeats_plainType.bind fun type type' words rest told _ => ?_
  obtain ⟨type, consistent, rfl, rfl, rfl⟩ := told
  refine (repeats_takeIf fun lexeme => by rw [run.kind_move]).bind
    fun name name' words rest taken _ => ?_
  rcases taken with ⟨rfl, rfl, rfl⟩ | ⟨lexeme, passes, _, rfl, rfl, rfl⟩
  · exact repeats_pure ⟨⟨type, none⟩, consistent, by simp [ParameterTree.words], rfl, rfl⟩
  · have kind : lexeme.kind = .identifier := by simpa using passes
    refine repeats_pure ⟨⟨type, some lexeme.text⟩, consistent, ?_, rfl, ?_⟩
    · simp [ParameterTree.words, Lexeme.bare, Word.ident, kind]
    · simp [ParameterTree.parameterIn, run.text_move]

theorem repeats_parameters :
    Repeats run lexemes parameters parameters
      (ToldBy (fun parameters => AllConsistent (parameters.flatMap ParameterTree.sites))
        ParameterTree.listWords (List.map (ParameterTree.parameterIn run.mode))
        (List.map (ParameterTree.parameterIn run.mode'))) := by
  refine (repeats_expect rfl).bind fun _ _ words rest taken _ => ?_
  subst taken
  refine (repeats_skip rfl).bind fun found found' words rest taken _ => ?_
  obtain ⟨rfl, rfl⟩ := taken
  cases found' with
  | true => exact repeats_pure ⟨[], List.forall_mem_nil _, rfl, rfl, rfl⟩
  | false =>
      refine (repeats_separated rfl fun _ _ => repeats_parameter).bind
        fun found found' words rest told _ => ?_
      obtain ⟨trees, _, consistent, rfl, rfl, rfl⟩ := told
      refine (repeats_expect rfl).bind fun _ _ words rest taken _ => ?_
      subst taken
      exact repeats_pure ⟨trees, allConsistent_flatMap.mpr consistent,
        by simp [ParameterTree.listWords], rfl, rfl⟩

theorem repeats_throwsClause :
    Repeats run lexemes throwsClause throwsClause
      (ToldBy (fun types => AllConsistent (plainSites types)) throwsWords
        (List.map (TypeTree.plainIn run.mode)) (List.map (TypeTree.plainIn run.mode'))) := by
  refine (repeats_skipWord "throws").bind fun found found' words rest taken _ => ?_
  obtain ⟨rfl, rfl⟩ := taken
  cases found' with
  | false => exact repeats_pure ⟨[], List.forall_mem_nil _, rfl, rfl, rfl⟩
  | true =>
      refine (repeats_separated rfl fun _ _ => repeats_plainType).mono
        fun words found found' told => ?_
      obtain ⟨trees, filled, consistent, rfl, rfl, rfl⟩ := told
      exact ⟨trees, allConsistent_flatMap.mpr consistent, by simp [throwsWords, filled], rfl, rfl⟩

/-- Where the first run finds its semicolon, the second one finds it too. -/
theorem cutValue_again (run : Rerun) (lexemes : List Lexeme)
    (guard : run.more = [] ∨ lexemes.dropWhile (fun lexeme => !isSemicolon lexeme) ≠ []) :
    (run.again lexemes).takeWhile (fun lexeme => !isSemicolon lexeme) =
        (lexemes.takeWhile fun lexeme => !isSemicolon lexeme).map run.move ∧
      (run.again lexemes).dropWhile (fun lexeme => !isSemicolon lexeme) =
        run.again (lexemes.dropWhile fun lexeme => !isSemicolon lexeme) := by
  induction lexemes with
  | nil =>
      rcases guard with none | filled
      · simp [none]
      · exact absurd rfl filled
  | cons next rest ih =>
      have same : isSemicolon (run.move next) = isSemicolon next := by
        simp [isSemicolon, run.kind_move]
      cases ends : isSemicolon next with
      | true => simp [same, ends]
      | false =>
          have inner := ih (by simpa [ends] using guard)
          simp [same, ends, inner]

def valueFrom (taken rest : List Lexeme) : Reader String :=
  if taken.isEmpty then unexpected .value
  else do
    continueWith rest
    if (← remaining).isEmpty then unexpected (.token .semicolon)
    else return Lexeme.sourceText taken

theorem rawValue_apply (context : Context) (lexemes : List Lexeme) :
    rawValue context lexemes =
      valueFrom (lexemes.takeWhile fun lexeme => !isSemicolon lexeme)
        (lexemes.dropWhile fun lexeme => !isSemicolon lexeme) context lexemes := by
  rw [rawValue, bind_ok (remaining_apply context lexemes)]
  rfl

theorem repeats_valueFrom (run : Rerun) {taken : List Lexeme} (rest : List Lexeme)
    (plain : ∀ lexeme ∈ taken, lexeme.kind ≠ .semicolon) :
    Repeats run (taken ++ rest) (valueFrom taken rest)
      (valueFrom (taken.map run.move) (run.again rest))
      (Told ValueTree.words ValueTree.source ValueTree.source) := by
  cases taken with
  | nil => exact repeats_unexpected .value
  | cons first more =>
      have plainWords : ∀ word ∈ (first :: more).map Lexeme.bare, word.kind ≠ .semicolon := by
        intro word member
        obtain ⟨lexeme, stored, rfl⟩ := List.mem_map.mp member
        exact plain lexeme stored
      refine Repeats.continueWith (first :: more) ?_
      cases rest with
      | nil =>
          refine fun _ => .inl ⟨_, rfl, fun alone => ?_⟩
          rw [bind_ok (remaining_apply run.context' (run.again [])), run.again_nil, alone]
          simp [unexpected, Rerun.faultAgain, run.end_move alone]
      | cons semicolon rest =>
          refine Repeats.remaining ?_
          refine repeats_pure ⟨⟨(first :: more).map Lexeme.bare, Lexeme.sourceText (first :: more),
            by simp, plainWords⟩, List.append_nil _, rfl, ?_⟩
          exact run.sourceText_move (first :: more)

theorem repeats_rawValue :
    Repeats run lexemes rawValue rawValue
      (Told ValueTree.words ValueTree.source ValueTree.source) := by
  intro settled
  have whole : lexemes.takeWhile (fun lexeme => !isSemicolon lexeme) ++
      lexemes.dropWhile (fun lexeme => !isSemicolon lexeme) = lexemes :=
    List.takeWhile_append_dropWhile
  have plain : ∀ lexeme ∈ lexemes.takeWhile (fun lexeme => !isSemicolon lexeme),
      lexeme.kind ≠ .semicolon := by
    intro lexeme member
    have passes := List.all_eq_true.mp List.all_takeWhile lexeme member
    simpa [isSemicolon] using passes
  have again := cutValue_again run lexemes
  rw [rawValue_apply, rawValue_apply]
  by_cases guard : run.more = [] ∨ lexemes.dropWhile (fun lexeme => !isSemicolon lexeme) ≠ []
  · rw [(again guard).1, (again guard).2]
    have repeats :=
      repeats_valueFrom run (lexemes.dropWhile fun lexeme => !isSemicolon lexeme) plain
    rw [whole] at repeats
    exact repeats settled
  · -- The first run ends inside the value and fails.
    simp only [not_or, ne_eq, not_not] at guard
    rw [guard.2]
    have failed : ∃ fault, valueFrom (lexemes.takeWhile fun lexeme => !isSemicolon lexeme) []
        run.context lexemes = .error fault := by
      cases lexemes.takeWhile (fun lexeme => !isSemicolon lexeme) <;> cases lexemes <;>
        exact ⟨_, rfl⟩
    obtain ⟨fault, failed⟩ := failed
    exact .inl ⟨fault, failed, fun alone => absurd alone guard.1⟩

/-- What is read of a member from its value on. -/
theorem repeats_valueClause {sign : Reader Bool} {word : Word}
    {next next' : Option String → Reader α} {post : List Word → α → α → Prop}
    (signs : Repeats run lexemes sign sign fun words found found' =>
      found' = found ∧ words = if found then [word] else [])
    (later : ∀ (value : Option ValueTree) (rest : List Lexeme),
      Repeats run rest (next (value.map ValueTree.source)) (next' (value.map ValueTree.source))
        fun words => post (ValueTree.clauseWords word value ++ words)) :
    Repeats run lexemes
      (do
        let value ← if ← sign then some <$> rawValue else pure none
        next value)
      (do
        let value ← if ← sign then some <$> rawValue else pure none
        next' value) post := by
  refine signs.bind fun found found' words rest taken _ => ?_
  obtain ⟨rfl, rfl⟩ := taken
  cases found' with
  | false => exact later none rest
  | true =>
      have value : Repeats run rest (some <$> rawValue) (some <$> rawValue)
          (Told ValueTree.words (fun tree => some tree.source) fun tree => some tree.source) := by
        refine repeats_rawValue.bind fun value value' words rest told _ => ?_
        obtain ⟨tree, rfl, rfl, rfl⟩ := told
        exact repeats_pure ⟨tree, List.append_nil _, rfl, rfl⟩
      refine value.bind fun value value' words rest told _ => ?_
      obtain ⟨tree, rfl, rfl, rfl⟩ := told
      exact later (some tree) rest

/-! ## Members -/

theorem repeats_constructor :
    Repeats run lexemes constructor constructor
      (ToldBy (fun item => (MemberTree.constructor item).Consistent) ConstructorTree.words
        (ConstructorTree.constructorIn run.mode) (ConstructorTree.constructorIn run.mode')) := by
  refine repeats_preamble.bind fun front front' words rest told _ => ?_
  obtain ⟨front, agree, rfl, rfl, rfl⟩ := told
  refine repeats_typeParams.bind fun params params' words rest told _ => ?_
  obtain ⟨typeParams, inParams, rfl, rfl, rfl⟩ := told
  refine (repeats_qualifiedName .constructorName).bind fun name name' words rest told _ => ?_
  obtain ⟨name, rfl, rfl, rfl⟩ := told
  refine repeats_parameters.bind fun found found' words rest told _ => ?_
  obtain ⟨parameters, inParameters, rfl, rfl, rfl⟩ := told
  refine repeats_throwsClause.bind fun found found' words rest told _ => ?_
  obtain ⟨throws, inThrows, rfl, rfl, rfl⟩ := told
  refine (repeats_expect rfl).bind fun _ _ words rest taken _ => ?_
  subst taken
  refine repeats_pure ⟨⟨front, typeParams, name, parameters, throws⟩, ⟨agree, ?_⟩,
    by simp [ConstructorTree.words], rfl, rfl⟩
  exact allConsistent_append.mpr ⟨inParams, allConsistent_append.mpr ⟨inParameters, inThrows⟩⟩

theorem repeats_method :
    Repeats run lexemes method method
      (ToldBy (fun item => (MemberTree.method item).Consistent) MethodTree.words
        (MethodTree.methodIn run.mode) (MethodTree.methodIn run.mode')) := by
  refine repeats_preamble.bind fun front front' words rest told _ => ?_
  obtain ⟨front, agree, rfl, rfl, rfl⟩ := told
  refine repeats_typeParams.bind fun params params' words rest told _ => ?_
  obtain ⟨typeParams, inParams, rfl, rfl, rfl⟩ := told
  refine (repeats_typeRef _).bind fun type type' words rest told _ => ?_
  obtain ⟨returnType, inReturn, rfl, rfl, rfl⟩ := told
  refine (repeats_identifier .methodName).bind fun name name' words rest taken _ => ?_
  obtain ⟨rfl, rfl⟩ := taken
  refine repeats_parameters.bind fun found found' words rest told _ => ?_
  obtain ⟨parameters, inParameters, rfl, rfl, rfl⟩ := told
  refine repeats_throwsClause.bind fun found found' words rest told _ => ?_
  obtain ⟨throws, inThrows, rfl, rfl, rfl⟩ := told
  refine repeats_valueClause (repeats_skipWord "default") fun defaultValue rest => ?_
  refine (repeats_expect rfl).bind fun _ _ words rest taken _ => ?_
  subst taken
  refine repeats_pure ⟨⟨front, typeParams, returnType, name.text, parameters, throws,
    defaultValue⟩, ⟨agree, ?_⟩, ?_, rfl, ?_⟩
  · have inReturn := TypeTree.consistent_front agree inReturn
    exact allConsistent_append.mpr ⟨inParams, allConsistent_append.mpr ⟨inReturn,
      allConsistent_append.mpr ⟨inParameters, inThrows⟩⟩⟩
  · simp [MethodTree.words]
  · simp [MethodTree.methodIn, run.text_move, frontPreamble]

theorem repeats_field (isEnumConstant : Bool) :
    Repeats run lexemes (field isEnumConstant) (field isEnumConstant)
      (ToldBy (fun item => item.isEnumConstant = isEnumConstant ∧
          (MemberTree.field item).Consistent)
        FieldTree.words (FieldTree.fieldIn run.mode) (FieldTree.fieldIn run.mode')) := by
  refine repeats_preamble.bind fun front front' words rest told _ => ?_
  obtain ⟨front, agree, rfl, rfl, rfl⟩ := told
  refine (repeats_typeRef _).bind fun type type' words rest told _ => ?_
  obtain ⟨type, inType, rfl, rfl, rfl⟩ := told
  refine (repeats_identifier .fieldName).bind fun name name' words rest taken _ => ?_
  obtain ⟨rfl, rfl⟩ := taken
  refine repeats_valueClause (repeats_skip rfl) fun value rest => ?_
  refine (repeats_expect rfl).bind fun _ _ words rest taken _ => ?_
  subst taken
  refine repeats_pure ⟨⟨front, type, name.text, value, isEnumConstant⟩,
    ⟨rfl, agree, TypeTree.consistent_front agree inType⟩, ?_, rfl, ?_⟩
  · simp [FieldTree.words]
  · simp [FieldTree.fieldIn, run.text_move, frontPreamble]

abbrev MemberTold (run : Rerun) : List Word → Located Member → Located Member → Prop :=
  ToldBy (fun tree : Located MemberTree => tree.item.Consistent) (fun tree => tree.item.words)
    (fun tree => ⟨tree.line, tree.item.memberIn run.mode⟩)
    fun tree => ⟨run.shift tree.line, tree.item.memberIn run.mode'⟩

/-- What is read of a member behind its keyword. -/
def memberBehind (keyword : String) (line : Nat) : Reader (Located Member) :=
  match keyword with
  | "ctor" => return { line, item := .constructor (← constructor) }
  | "method" => return { line, item := .method (← method) }
  | "field" => return { line, item := .field (← field false) }
  | "enum_constant" => return { line, item := .field (← field true) }
  | other => failAt line (.unsupportedMember other)

theorem repeats_memberBehind (keyword : String) {line line' : Nat}
    (same : line' = run.shift line) :
    Repeats run lexemes (memberBehind keyword line) (memberBehind keyword line') fun words =>
      MemberTold run (.ident keyword :: words) := by
  subst same
  unfold memberBehind
  split
  · refine repeats_constructor.bind fun found found' words rest told _ => ?_
    obtain ⟨item, consistent, rfl, rfl, rfl⟩ := told
    exact repeats_pure
      ⟨⟨line, .constructor item⟩, consistent, by rw [List.append_nil]; rfl, rfl, rfl⟩
  · refine repeats_method.bind fun found found' words rest told _ => ?_
    obtain ⟨item, consistent, rfl, rfl, rfl⟩ := told
    exact repeats_pure ⟨⟨line, .method item⟩, consistent, by rw [List.append_nil]; rfl, rfl, rfl⟩
  · refine (repeats_field false).bind fun found found' words rest told _ => ?_
    obtain ⟨item, ⟨kind, consistent⟩, rfl, rfl, rfl⟩ := told
    exact repeats_pure ⟨⟨line, .field item⟩, consistent,
      by simp [MemberTree.words, MemberTree.keyword, MemberTree.ownWords, kind], rfl, rfl⟩
  · refine (repeats_field true).bind fun found found' words rest told _ => ?_
    obtain ⟨item, ⟨kind, consistent⟩, rfl, rfl, rfl⟩ := told
    exact repeats_pure ⟨⟨line, .field item⟩, consistent,
      by simp [MemberTree.words, MemberTree.keyword, MemberTree.ownWords, kind], rfl, rfl⟩
  · exact repeats_failAt _ rfl

theorem repeats_member : Repeats run lexemes member member (MemberTold run) := by
  refine (repeats_identifier .memberDeclaration).bind fun keyword keyword' words rest taken _ => ?_
  obtain ⟨rfl, rfl⟩ := taken
  have behind : Repeats run rest (memberBehind keyword.text keyword.line)
      (memberBehind (run.move keyword).text (run.move keyword).line) fun words =>
        MemberTold run (.ident keyword.text :: words) := by
    rw [run.text_move]
    exact repeats_memberBehind keyword.text (run.line_move keyword)
  exact behind

end ApiCompat.Signature
