import ApiCompat.Proofs.Grammar.Sites
import ApiCompat.Proofs.Rerun.Basic

/-!
# Reading names, annotations and types twice

Both runs take the words of the same tree.  Only the nullness of a type
without marks depends on the null mode.  All the marks that count agree in the
tree, for a reader fails at the first one that does not.
-/

set_option autoImplicit false

namespace ApiCompat.Signature

open Reader Grammar

variable {run : Rerun} {lexemes : List Lexeme} {α β τ : Type}

/-! ## Lists -/

section Separated

variable {item item' : Reader α} {sound : τ → Prop} {write : τ → List Word} {mean mean' : τ → α}
  {bound : Nat}

theorem separatedRest_nil (separator : TokenKind) (rounds : Nat) (context : Context) :
    separatedRest separator item rounds context [] = .ok ([], []) := by
  cases rounds with
  | zero => rfl
  | succ rounds => rfl

theorem repeats_separatedRest {kind : TokenKind} {separator : Word}
    (fixed : fixedWord? kind = some separator)
    (each : ∀ rest : List Lexeme, rest.length ≤ bound →
      Repeats run rest item item' (ToldBy sound write mean mean'))
    {rounds rounds' : Nat} (inBound : lexemes.length ≤ bound + 1)
    (enough : lexemes.length ≤ rounds) (enough' : (run.again lexemes).length ≤ rounds') :
    Repeats run lexemes (separatedRest kind item rounds)
      (separatedRest kind item' rounds')
      (ToldBy (fun trees => ∀ tree ∈ trees, sound tree)
        (fun trees => trees.flatMap fun tree => separator :: write tree)
        (List.map mean) (List.map mean')) := by
  induction rounds generalizing lexemes rounds' bound with
  | zero =>
      obtain rfl : lexemes = [] := List.length_eq_zero_iff.mp (Nat.le_zero.mp enough)
      exact repeats_atEnd ⟨[], by simp, rfl, rfl, rfl⟩ rfl
        (separatedRest_nil kind rounds' run.context')
  | succ rounds ih =>
      cases rounds' with
      | zero =>
          obtain rfl := Rerun.eq_nil_of_again lexemes enough'
          exact repeats_atEnd ⟨[], by simp, rfl, rfl, rfl⟩ rfl rfl
      | succ rounds' =>
          refine (repeats_skip fixed).bind
            fun found found' words rest taken length => ?_
          obtain ⟨rfl, rfl⟩ := taken
          cases found' with
          | false => exact repeats_pure ⟨[], by simp, rfl, rfl, rfl⟩
          | true =>
              have shorter : lexemes.length = rest.length + 1 := by
                rw [length]
                exact Nat.add_comm _ _
              refine (each rest (by omega)).bind fun first first' words rest' told length' => ?_
              obtain ⟨tree, good, rfl, rfl, rfl⟩ := told
              rw [run.length_again] at enough'
              refine (ih each (by omega) (by omega) (by rw [run.length_again]; omega)).bind
                fun later later' words rest'' told _ => ?_
              obtain ⟨trees, allGood, rfl, rfl, rfl⟩ := told
              exact repeats_pure
                ⟨tree :: trees, List.forall_mem_cons.mpr ⟨good, allGood⟩, by simp, rfl, rfl⟩

/-- Items with separators between them; there is at least one. -/
theorem repeats_separated {kind : TokenKind} {separator : Word}
    (fixed : fixedWord? kind = some separator)
    (each : ∀ rest : List Lexeme, rest.length ≤ lexemes.length →
      Repeats run rest item item' (ToldBy sound write mean mean')) :
    Repeats run lexemes (separated kind item) (separated kind item')
      fun words values values' => ∃ trees, trees ≠ [] ∧ (∀ tree ∈ trees, sound tree) ∧
        words = joinWords [separator] (trees.map write) ∧
        values = trees.map mean ∧ values' = trees.map mean' := by
  refine (each lexemes (Nat.le_refl _)).bind fun first first' words rest told length => ?_
  obtain ⟨tree, good, rfl, rfl, rfl⟩ := told
  refine Repeats.remaining ?_
  refine (repeats_separatedRest fixed each (by omega) (Nat.le_refl _)
    (Nat.le_refl _)).bind fun later later' words rest' told _ => ?_
  obtain ⟨trees, allGood, rfl, rfl, rfl⟩ := told
  refine repeats_pure ⟨tree :: trees, List.cons_ne_nil _ _,
    List.forall_mem_cons.mpr ⟨good, allGood⟩, ?_, rfl, rfl⟩
  simp [joinWords, List.flatMap_map]

end Separated

/-! ## Names -/

theorem splitDotted_again (settled : run.Settled lexemes) :
    ∃ taken, lexemes = taken ++ (splitDotted lexemes).2 ∧
      Spells (((splitDotted lexemes).1.map Lexeme.text).flatMap fun part => [.dot, .ident part])
        taken ∧
      (run.more = [] ∨ (splitDotted lexemes).2 ≠ [] →
        splitDotted (run.again lexemes) =
          ((splitDotted lexemes).1.map run.move, run.again (splitDotted lexemes).2)) := by
  fun_induction splitDotted lexemes with
  | case1 dot word rest kinds later ih =>
      obtain ⟨taken, whole, spells, again⟩ := ih (settled.suffix [dot, word])
      refine ⟨dot :: word :: taken, by rw [List.cons_append, List.cons_append, ← whole], ?_, ?_⟩
      · have isDot : dot.bare = .dot :=
          (settled.standard dot List.mem_cons_self).fixed .dot (by rw [kinds.1]; rfl)
        have dotText : dot.text = Word.dot.text := congrArg Word.text isDot
        refine .cons ⟨kinds.1, dotText, ?_⟩ (.cons ⟨kinds.2, rfl, ?_⟩ spells)
        · intro gap member
          cases member
        · intro gap member
          cases member
      · intro guard
        simp [splitDotted, run.kind_move, kinds, again guard, later]
  | case2 dot word rest kinds =>
      refine ⟨[], rfl, .nil, fun _ => ?_⟩
      simp [splitDotted, run.kind_move, kinds]
  | case3 lexemes short =>
      refine ⟨[], rfl, .nil, fun guard => ?_⟩
      cases lexemes with
      | nil =>
          rcases guard with none | filled
          · simp [none, splitDotted]
          · exact absurd rfl filled
      | cons last rest =>
          cases rest with
          | cons word rest => exact absurd rfl (short last word rest)
          | nil =>
              cases behind : run.more with
              | nil => simp [Rerun.again, behind, splitDotted]
              | cons next more =>
                  have notDot := settled.noDot (by simp [behind]) last rfl
                  simp [behind, splitDotted, run.kind_move, notDot]

theorem repeats_qualifiedName (expected : Expected) :
    Repeats run lexemes (qualifiedName expected) (qualifiedName expected)
      (Told Name.words Name.text Name.text) := by
  refine (repeats_identifier expected).bind fun first first' words rest taken _ => ?_
  obtain ⟨rfl, rfl⟩ := taken
  intro settled
  obtain ⟨taken, whole, spells, again⟩ := splitDotted_again settled
  let name : Name := ⟨first.text, (splitDotted rest).1.map Lexeme.text⟩
  refine .inr ⟨name.text, name.text, _, taken, (splitDotted rest).2, whole, spells,
    ⟨name, rfl, rfl, rfl⟩, rfl, fun guard => ?_⟩
  rw [bind_ok (remaining_apply run.context' (run.again rest)), again guard,
    bind_ok (continueWith_apply run.context' _ _)]
  simp only [run.text_move, List.map_map, Function.comp_def]
  rfl

/-! ## Annotations -/

theorem splitArguments_map (run : Rerun) (depth : Nat) (lexemes : List Lexeme) :
    splitArguments depth (lexemes.map run.move) =
      (splitArguments depth lexemes).map fun cut => (cut.1.map run.move, cut.2.map run.move) := by
  induction lexemes generalizing depth with
  | nil => rfl
  | cons next rest ih =>
      rw [List.map_cons, splitArguments_cons, splitArguments_cons, run.kind_move, ih]
      split
      · rfl
      · cases splitArguments (depthAfter depth next.kind) rest <;> rfl

theorem closesAtEnd_of_split {depth : Nat} {args rest : List Lexeme}
    (cut : splitArguments depth lexemes = some (args, rest)) :
    closesAtEnd depth (args.map Lexeme.bare) = true := by
  induction lexemes generalizing depth args with
  | nil => cases cut
  | cons next later ih =>
      rw [splitArguments_cons] at cut
      split at cut
      · next closed =>
          obtain ⟨rfl, _⟩ := Prod.mk.inj (Option.some.inj cut)
          simp [closesAtEnd, Lexeme.bare, closed]
      · next opened =>
          simp only [Option.map_eq_some_iff, Prod.mk.injEq] at cut
          obtain ⟨⟨more, behind⟩, found, rfl, rfl⟩ := cut
          have inner := ih found
          simpa [closesAtEnd, Lexeme.bare, opened] using inner

theorem repeats_annotationArguments :
    Repeats run lexemes annotationArguments annotationArguments fun words _ _ =>
      words = [] ∨ Enclosed words := by
  refine (repeats_isNext .leftParen).peek fun found found' seen => ?_
  obtain ⟨rfl, opened⟩ := seen
  cases found' with
  | false => exact repeats_pure (.inl rfl)
  | true =>
      refine repeats_currentLine.peek fun line line' same => ?_
      subst same
      refine Repeats.remaining ?_
      intro _
      cases cut : splitArguments 0 lexemes with
      | none =>
          refine .inl ⟨_, rfl, fun alone => ?_⟩
          have again : splitArguments 0 (run.again lexemes) = none := by
            simp only [Rerun.again, alone, List.append_nil, splitArguments_map, cut,
              Option.map_none]
          rw [again]
          rfl
      | some pair =>
          obtain ⟨args, rest⟩ := pair
          obtain ⟨rfl, follow⟩ := splitArguments_follow cut
          have again := follow (args.map run.move) (run.again rest) (run.spells_move args)
          rw [← run.again_append] at again
          refine .inr ⟨(), (), _, args, rest, rfl, spells_bare args, .inr ⟨?_, ?_⟩, rfl,
            fun _ => by rw [again]; rfl⟩
          · cases args with
            | nil => exact absurd rfl (splitArguments_ne_nil cut)
            | cons first args =>
                rintro word member
                obtain rfl := Option.some.inj member
                simpa [Lexeme.bare] using opened.symm
          · exact closesAtEnd_of_split cut

theorem repeats_withSource {reader reader' : Reader α} {post : List Word → α → α → Prop}
    (repeats : Repeats run lexemes reader reader' post) :
    Repeats run lexemes (withSource reader) (withSource reader') fun words found found' =>
      post words found.1 found'.1 ∧ found'.2 = found.2 := by
  intro settled
  rcases repeats settled with ⟨fault, failed, failed'⟩ |
    ⟨value, value', words, taken, rest, rfl, spells, holds, read, read'⟩
  · refine .inl ⟨fault, ?_, fun none => ?_⟩
    · rw [withSource, bind_ok (remaining_apply run.context lexemes), bind_error failed]
    · rw [withSource, bind_ok (remaining_apply run.context' (run.again lexemes)),
        bind_error (failed' none)]
  · refine .inr ⟨(value, Lexeme.sourceText taken), (value', Lexeme.sourceText taken), words, taken,
      rest, rfl, spells, ⟨holds, rfl⟩, ?_, fun guard => ?_⟩
    · have cut : (taken ++ rest).take ((taken ++ rest).length - rest.length) = taken := by simp
      rw [withSource, bind_ok (remaining_apply run.context (taken ++ rest)), bind_ok read,
        bind_ok (remaining_apply run.context rest), cut]
      rfl
    · have cut : (run.again (taken ++ rest)).take
          ((run.again (taken ++ rest)).length - (run.again rest).length) = taken.map run.move := by
        simp [run.again_append]
      rw [withSource, bind_ok (remaining_apply run.context' (run.again (taken ++ rest))),
        bind_ok (read' guard), bind_ok (remaining_apply run.context' (run.again rest)), cut,
        run.sourceText_move]
      rfl

theorem repeats_annotationUse :
    Repeats run lexemes annotationUse annotationUse fun words found found' =>
      found' = found ∧ ∃ use : AnnotationTree, words = use.words ∧ found.1 = use.name.text := by
  have body : Repeats run lexemes
      (do
        let _ ← expect .atSign
        let name ← qualifiedName .annotationName
        annotationArguments
        return name)
      (do
        let _ ← expect .atSign
        let name ← qualifiedName .annotationName
        annotationArguments
        return name)
      fun words found found' => found' = found ∧
        ∃ use : AnnotationTree, words = use.words ∧ found = use.name.text := by
    refine (repeats_expect rfl).bind fun _ _ words rest taken _ => ?_
    subst taken
    refine (repeats_qualifiedName .annotationName).bind fun found found' words rest told _ => ?_
    obtain ⟨name, rfl, rfl, rfl⟩ := told
    refine repeats_annotationArguments.bind fun _ _ words rest enclosed _ => ?_
    exact repeats_pure ⟨rfl, ⟨name, words, enclosed⟩, by simp [AnnotationTree.words], rfl⟩
  refine (repeats_withSource body).mono fun words found found' holds => ?_
  obtain ⟨⟨sameName, use⟩, sameSource⟩ := holds
  exact ⟨Prod.ext sameName sameSource, use⟩

theorem repeats_mergeNullness (declared : Option Nullness) (incoming : Nullness)
    {line line' : Nat} (same : line' = run.shift line) :
    Repeats run lexemes (mergeNullness declared incoming line)
      (mergeNullness declared incoming line') fun words found found' =>
        words = [] ∧ found' = found ∧ found = some incoming ∧
          ∀ nullness ∈ declared, nullness = incoming := by
  cases declared with
  | none => exact repeats_pure ⟨rfl, rfl, rfl, by simp⟩
  | some nullness =>
      unfold mergeNullness
      by_cases agree : nullness = incoming
      · simp only [if_pos agree]
        exact repeats_pure ⟨rfl, rfl, rfl, by simp [agree]⟩
      · simp only [if_neg agree]
        exact repeats_failAt _ same

theorem typeAnnotations_nil (line rounds : Nat) (declared : Option Nullness) (context : Context) :
    typeAnnotations line rounds declared context [] = .ok (declared, []) := by
  cases rounds with
  | zero => rfl
  | succ rounds => rfl

theorem annotationsWords_cons (use : AnnotationTree) (annotations : List AnnotationTree) :
    annotationsWords (use :: annotations) = use.words ++ annotationsWords annotations :=
  List.flatMap_cons

theorem length_annotationWords_pos (use : AnnotationTree) : 0 < use.words.length := by
  simp [AnnotationTree.words]

theorem or_declared {declared : Option Nullness} {mark : Nullness}
    (same : ∀ other ∈ declared, other = mark) : declared.or (some mark) = some mark := by
  cases declared with
  | none => rfl
  | some other => exact congrArg some (same other rfl)

/-- The words are those of annotations that agree with what is declared and may add to it. -/
def AnnotationsTold (declared : Option Nullness) (words : List Word) (found : Option Nullness) :
    Prop :=
  ∃ annotations, words = annotationsWords annotations ∧
    found = declared.or (annotations.filterMap AnnotationTree.nullness?).head? ∧
    Agree (declared.toList ++ annotations.filterMap AnnotationTree.nullness?)

theorem annotationsTold_nil (declared : Option Nullness) : AnnotationsTold declared [] declared :=
  ⟨[], rfl, Option.or_none.symm, by simpa using agree_toList declared⟩

theorem repeats_typeAnnotations {line line' rounds rounds' : Nat} (declared : Option Nullness)
    (same : line' = run.shift line) (enough : lexemes.length ≤ rounds)
    (enough' : (run.again lexemes).length ≤ rounds') :
    Repeats run lexemes (typeAnnotations line rounds declared)
      (typeAnnotations line' rounds' declared) fun words found found' =>
        found' = found ∧ AnnotationsTold declared words found := by
  induction rounds generalizing lexemes rounds' declared with
  | zero =>
      obtain rfl : lexemes = [] := List.length_eq_zero_iff.mp (Nat.le_zero.mp enough)
      exact repeats_atEnd ⟨rfl, annotationsTold_nil declared⟩ rfl
        (typeAnnotations_nil line' rounds' declared run.context')
  | succ rounds ih =>
      cases rounds' with
      | zero =>
          obtain rfl := Rerun.eq_nil_of_again lexemes enough'
          exact repeats_atEnd ⟨rfl, annotationsTold_nil declared⟩ rfl rfl
      | succ rounds' =>
          refine (repeats_isNext .atSign).peek fun found found' seen => ?_
          obtain ⟨rfl, _⟩ := seen
          cases found' with
          | false => exact repeats_pure ⟨rfl, annotationsTold_nil declared⟩
          | true =>
              refine repeats_annotationUse.bind fun found found' words rest taken length => ?_
              obtain ⟨rfl, use, rfl, named⟩ := taken
              obtain ⟨name, source⟩ := found'
              have positive := length_annotationWords_pos use
              rw [run.length_again] at enough'
              have fewer : rest.length ≤ rounds := by omega
              have fewer' : (run.again rest).length ≤ rounds' := by
                rw [run.length_again]
                omega
              have known : Nullness.ofAnnotation? name = use.nullness? :=
                congrArg Nullness.ofAnnotation? named
              simp only [known]
              cases nullness : use.nullness? with
              | none =>
                  refine (ih declared fewer fewer').mono fun words found found' holds => ?_
                  obtain ⟨rfl, annotations, rfl, rfl, agree⟩ := holds
                  exact ⟨rfl, use :: annotations, (annotationsWords_cons use annotations).symm,
                    by simp [nullness], by simpa [nullness] using agree⟩
              | some nullness' =>
                  refine (repeats_mergeNullness declared nullness' same).peek
                    fun merged merged' holds => ?_
                  obtain ⟨rfl, rfl, same⟩ := holds
                  refine (ih _ fewer fewer').mono fun words found found' holds => ?_
                  obtain ⟨rfl, annotations, rfl, rfl, agree⟩ := holds
                  refine ⟨rfl, use :: annotations, (annotationsWords_cons use annotations).symm,
                    ?_, ?_⟩
                  · simp [nullness, or_declared same]
                  · simpa [nullness] using Agree.declared same agree

/-! ## The parts of a type -/

theorem repeats_nullnessSuffix :
    Repeats run lexemes nullnessSuffix nullnessSuffix
      (Told markWords (Option.map Mark.nullness) (Option.map Mark.nullness)) := by
  refine (repeats_skip rfl).bind fun found found' words rest taken _ => ?_
  obtain ⟨rfl, rfl⟩ := taken
  cases found' with
  | true => exact repeats_pure ⟨some .question, rfl, rfl, rfl⟩
  | false =>
      refine (repeats_skip rfl).bind fun found found' words rest taken _ => ?_
      obtain ⟨rfl, rfl⟩ := taken
      cases found' with
      | true => exact repeats_pure ⟨some .bang, rfl, rfl, rfl⟩
      | false => exact repeats_pure ⟨none, rfl, rfl, rfl⟩

theorem arrayDims_nil (rounds : Nat) (context : Context) :
    arrayDims rounds context [] = .ok (0, []) := by
  cases rounds with
  | zero => rfl
  | succ rounds => rfl

theorem repeats_arrayDims {rounds rounds' : Nat} (enough : lexemes.length ≤ rounds)
    (enough' : (run.again lexemes).length ≤ rounds') :
    Repeats run lexemes (arrayDims rounds) (arrayDims rounds') fun words dims dims' =>
      dims' = dims ∧ words = dimWords dims := by
  induction rounds generalizing lexemes rounds' with
  | zero =>
      obtain rfl : lexemes = [] := List.length_eq_zero_iff.mp (Nat.le_zero.mp enough)
      exact repeats_atEnd ⟨rfl, rfl⟩ rfl (arrayDims_nil rounds' run.context')
  | succ rounds ih =>
      cases rounds' with
      | zero =>
          obtain rfl := Rerun.eq_nil_of_again lexemes enough'
          exact repeats_atEnd ⟨rfl, rfl⟩ rfl rfl
      | succ rounds' =>
          refine (repeats_skip rfl).bind fun found found' words rest taken length => ?_
          obtain ⟨rfl, rfl⟩ := taken
          cases found' with
          | false => exact repeats_pure ⟨rfl, rfl⟩
          | true =>
              refine (repeats_expect rfl).bind fun _ _ words rest' taken length' => ?_
              subst taken
              simp only [if_true, List.length_singleton] at length length'
              rw [run.length_again] at enough'
              refine (ih (by omega) (by rw [run.length_again]; omega)).bind
                fun dims dims' words rest'' taken _ => ?_
              obtain ⟨rfl, rfl⟩ := taken
              exact repeats_pure ⟨rfl, by simp [dimWords]⟩

theorem repeats_settleNullness (declared suffix : Option Nullness) {line line' : Nat}
    (same : line' = run.shift line) :
    Repeats run lexemes (settleNullness line declared suffix)
      (settleNullness line' declared suffix) fun words found found' =>
        words = [] ∧ (∀ nullness ∈ declared, ∀ marked ∈ suffix, nullness = marked) ∧
          found = (declared.or suffix).getD run.mode.bare ∧
          found' = (declared.or suffix).getD run.mode'.bare := by
  cases declared with
  | none =>
      cases suffix with
      | none => exact Repeats.context (repeats_pure ⟨rfl, by simp, rfl, rfl⟩)
      | some marked => exact repeats_pure ⟨rfl, by simp, rfl, rfl⟩
  | some nullness =>
      cases suffix with
      | none => exact repeats_pure ⟨rfl, by simp, rfl, rfl⟩
      | some marked =>
          simp only [settleNullness]
          by_cases agree : nullness = marked
          · simp only [if_pos agree]
            exact repeats_pure ⟨rfl, by simp [agree], rfl, rfl⟩
          · simp only [if_neg agree]
            exact repeats_failAt _ same

/-! ## Types -/

abbrev TypeTold (run : Rerun) (declared : Option Nullness) :
    List Word → TypeRef → TypeRef → Prop :=
  ToldBy (fun type => AllConsistent (type.sites declared.toList)) TypeTree.words
    (TypeTree.typeIn run.mode declared) (TypeTree.typeIn run.mode' declared)

section Inner

variable {type type' : Reader TypeRef} {bound : Nat}

theorem repeats_wildcardBound
    (each : ∀ rest : List Lexeme, rest.length ≤ bound →
      Repeats run rest type type' (TypeTold run none))
    (inBound : lexemes.length ≤ bound + 1) :
    Repeats run lexemes (wildcardBound type) (wildcardBound type')
      (ToldBy (fun bound => AllConsistent (TypeTree.boundSites bound)) TypeTree.boundWords
        (TypeTree.boundIn run.mode) (TypeTree.boundIn run.mode')) := by
  refine (repeats_skipWord "extends").bind fun found found' words rest taken length => ?_
  obtain ⟨rfl, rfl⟩ := taken
  cases found' with
  | true =>
      simp only [if_true, List.length_singleton] at length
      refine (each rest (by omega)).bind fun found found' words rest told _ => ?_
      obtain ⟨tree, consistent, rfl, rfl, rfl⟩ := told
      exact repeats_pure ⟨.upper tree, consistent, by simp [TypeTree.boundWords], rfl, rfl⟩
  | false =>
      simp only [Bool.false_eq_true, if_false, List.length_nil] at length
      refine (repeats_skipWord "super").bind fun found found' words rest' taken length' => ?_
      obtain ⟨rfl, rfl⟩ := taken
      cases found' with
      | true =>
          simp only [if_true, List.length_singleton] at length'
          refine (each rest' (by omega)).bind fun found found' words rest told _ => ?_
          obtain ⟨tree, consistent, rfl, rfl, rfl⟩ := told
          exact repeats_pure ⟨.lower tree, consistent, by simp [TypeTree.boundWords], rfl, rfl⟩
      | false =>
          refine repeats_pure ⟨.unbounded, ?_, rfl, rfl, rfl⟩
          exact List.forall_mem_nil _

theorem repeats_typeArguments
    (each : ∀ rest : List Lexeme, rest.length ≤ bound →
      Repeats run rest type type' (TypeTold run none))
    (inBound : lexemes.length ≤ bound + 1) :
    Repeats run lexemes (typeArguments type) (typeArguments type')
      (ToldBy (fun args => AllConsistent (plainSites args)) TypeTree.argWords
        (TypeTree.typesIn run.mode) (TypeTree.typesIn run.mode')) := by
  refine (repeats_skip rfl).bind fun found found' words rest taken length => ?_
  obtain ⟨rfl, rfl⟩ := taken
  cases found' with
  | false => exact repeats_pure ⟨[], List.forall_mem_nil _, rfl, rfl, rfl⟩
  | true =>
      simp only [if_true, List.length_singleton] at length
      refine (repeats_separated rfl fun rest' shorter => each rest' (by omega)).bind
        fun found found' words rest told _ => ?_
      obtain ⟨trees, filled, consistent, rfl, rfl, rfl⟩ := told
      refine (repeats_expect rfl).bind fun _ _ words rest taken _ => ?_
      subst taken
      refine repeats_pure ⟨trees, allConsistent_flatMap.mpr consistent, ?_,
        (TypeTree.typesIn_eq run.mode trees).symm, (TypeTree.typesIn_eq run.mode' trees).symm⟩
      rw [TypeTree.argWords_eq trees filled]
      simp

end Inner

theorem map_suffix (inner : Option Mark) (ending : Ending) :
    (ending.mark.or (if ending.dims = 0 ∧ ending.varargs = false then inner else none)).map
        Mark.nullness =
      (ending.mark.map Mark.nullness).or
        (if ending.dims = 0 ∧ ending.varargs = false then inner.map Mark.nullness else none) := by
  cases ending.mark with
  | some mark => rfl
  | none =>
      simp only [Option.none_or, Option.map_none]
      split <;> rfl

/-- The first of all marks of a type, part by part. -/
theorem head_outerMarks (declared : Option Nullness) (annotations : List AnnotationTree)
    (inner : Option Mark) (ending : Ending) :
    (outerMarks declared annotations inner ending).head? =
      (declared.or (annotations.filterMap AnnotationTree.nullness?).head?).or
        ((ending.mark.map Mark.nullness).or
          (if ending.dims = 0 ∧ ending.varargs = false then inner.map Mark.nullness else none)) := by
  rw [outerMarks, map_suffix, List.head?_append, List.head?_append, Option.or_assoc]
  simp [Option.head?_toList]

/-- The suffix of a type agrees with the first of the marks before it, and so with all. -/
theorem consistent_named {declared : Option Nullness} {annotations : List AnnotationTree}
    {args : List TypeTree} {inner : Option Mark} {ending : Ending}
    (agree : Agree (declared.toList ++ annotations.filterMap AnnotationTree.nullness?))
    (settled : ∀ nullness ∈ declared.or (annotations.filterMap AnnotationTree.nullness?).head?,
      ∀ marked ∈ (ending.mark.map Mark.nullness).or
        (if ending.dims = 0 ∧ ending.varargs = false then inner.map Mark.nullness else none),
      nullness = marked)
    (inArgs : AllConsistent (plainSites args)) (name : Name) :
    AllConsistent ((TypeTree.named annotations name args inner ending).sites declared.toList) := by
  rw [← TypeTree.argSites_eq] at inArgs
  refine List.forall_mem_cons.mpr ⟨?_, inArgs⟩
  rw [← map_suffix, ← TypeTree.getLast?_suffixes annotations name args] at settled
  rw [Site.Consistent, Site.counted, ← List.append_assoc]
  refine agree.append ?_
  rw [List.head?_append, Option.head?_toList]
  exact agree_options settled

theorem repeats_typeSuffix {declared : Option Nullness} {annotations : List AnnotationTree}
    {line line' : Nat} (same : line' = run.shift line) (name : Name) {args : List TypeTree}
    (agree : Agree (declared.toList ++ annotations.filterMap AnnotationTree.nullness?))
    (inArgs : AllConsistent (plainSites args)) :
    Repeats run lexemes
      (typeSuffix line (declared.or (annotations.filterMap AnnotationTree.nullness?).head?)
        name.text (TypeTree.typesIn run.mode args))
      (typeSuffix line' (declared.or (annotations.filterMap AnnotationTree.nullness?).head?)
        name.text (TypeTree.typesIn run.mode' args))
      fun words type type' => TypeTold run declared
        (annotationsWords annotations ++ (name.words ++ (TypeTree.argWords args ++ words)))
        type type' := by
  refine repeats_nullnessSuffix.bind fun found found' words rest told _ => ?_
  obtain ⟨inner, rfl, rfl, rfl⟩ := told
  refine Repeats.remaining ?_
  refine (repeats_arrayDims (Nat.le_refl _) (Nat.le_refl _)).bind
    fun dims dims' words rest taken _ => ?_
  obtain ⟨rfl, rfl⟩ := taken
  refine (repeats_skip rfl).bind fun varargs varargs' words rest taken _ => ?_
  obtain ⟨rfl, rfl⟩ := taken
  refine repeats_nullnessSuffix.bind fun found found' words rest told _ => ?_
  obtain ⟨mark, rfl, rfl, rfl⟩ := told
  refine (repeats_settleNullness _ _ same).bind fun nullness nullness' words rest settled _ => ?_
  obtain ⟨rfl, settled, rfl, rfl⟩ := settled
  refine repeats_pure ⟨.named annotations name args inner ⟨dims', varargs', mark⟩,
    consistent_named agree settled inArgs name, ?_, ?_, ?_⟩
  · simp [TypeTree.words, Ending.words, varargsWords]
  · simp [TypeTree.typeIn, head_outerMarks]
  · simp [TypeTree.typeIn, head_outerMarks]

theorem repeats_typeBody {depth depth' bound line line' : Nat} {declared : Option Nullness}
    {annotations : List AnnotationTree} (same : line' = run.shift line)
    (agree : Agree (declared.toList ++ annotations.filterMap AnnotationTree.nullness?))
    (each : ∀ rest : List Lexeme, rest.length ≤ bound →
      Repeats run rest (typeWithin depth none) (typeWithin depth' none) (TypeTold run none))
    (inBound : lexemes.length ≤ bound + 1) :
    Repeats run lexemes
      (typeBody depth line (declared.or (annotations.filterMap AnnotationTree.nullness?).head?))
      (typeBody depth' line' (declared.or (annotations.filterMap AnnotationTree.nullness?).head?))
      fun words type type' =>
        TypeTold run declared (annotationsWords annotations ++ words) type type' := by
  refine (repeats_skip rfl).bind fun found found' words rest taken length => ?_
  obtain ⟨rfl, rfl⟩ := taken
  cases found' with
  | true =>
      simp only [if_true, List.length_singleton] at length
      refine (repeats_wildcardBound each (by omega)).bind fun found found' words rest told _ => ?_
      obtain ⟨bound, inBound, rfl, rfl, rfl⟩ := told
      refine repeats_pure ⟨.wildcard annotations bound {}, ?_, ?_, rfl, rfl⟩
      · refine List.forall_mem_cons.mpr ⟨?_, inBound⟩
        simpa [Site.Consistent, Site.counted, TypeTree.suffixes, TypeTree.annotations] using agree
      · simp [TypeTree.words, Ending.words, dimWords, varargsWords, markWords]
  | false =>
      simp only [Bool.false_eq_true, if_false, List.length_nil] at length
      refine (repeats_qualifiedName .typeName).bind fun found found' words rest told length' => ?_
      obtain ⟨name, rfl, rfl, rfl⟩ := told
      refine (repeats_typeArguments each (by omega)).bind fun found found' words rest told _ => ?_
      obtain ⟨args, inArgs, rfl, rfl, rfl⟩ := told
      exact repeats_typeSuffix same name agree inArgs

theorem typeWithin_nil (depth : Nat) (declared : Option Nullness) (context : Context) :
    typeWithin depth declared context [] = unexpected .typeName context [] := by
  cases depth with
  | zero => rfl
  | succ depth => rfl

theorem repeats_typeWithin {depth depth' : Nat} (declared : Option Nullness)
    (enough : lexemes.length ≤ depth) (enough' : (run.again lexemes).length ≤ depth') :
    Repeats run lexemes (typeWithin depth declared) (typeWithin depth' declared)
      (TypeTold run declared) := by
  induction depth generalizing lexemes depth' declared with
  | zero =>
      obtain rfl : lexemes = [] := List.length_eq_zero_iff.mp (Nat.le_zero.mp enough)
      exact repeats_failsAtEnd rfl (typeWithin_nil depth' declared run.context')
  | succ depth ih =>
      cases lexemes with
      | nil =>
          exact repeats_failsAtEnd (typeWithin_nil _ declared run.context)
            (typeWithin_nil depth' declared run.context')
      | cons next later =>
          rw [run.length_again] at enough'
          obtain ⟨depth', rfl⟩ : ∃ less, depth' = less + 1 :=
            Nat.exists_eq_succ_of_ne_zero (by simp only [List.length_cons] at enough'; omega)
          have each : ∀ rest : List Lexeme, rest.length ≤ later.length →
              Repeats run rest (typeWithin depth none) (typeWithin depth' none)
                (TypeTold run none) := by
            intro rest shorter
            simp only [List.length_cons] at enough enough'
            exact ih none (by omega) (by rw [run.length_again]; omega)
          rw [typeWithin_succ, typeWithin_succ]
          refine repeats_currentLine.peek fun line line' same => ?_
          refine Repeats.remaining ?_
          refine (repeats_typeAnnotations declared same (Nat.le_refl _) (Nat.le_refl _)).bind
            fun found found' words rest taken length => ?_
          obtain ⟨rfl, annotations, rfl, rfl, agree⟩ := taken
          exact repeats_typeBody same agree each (by simp only [List.length_cons] at length; omega)

theorem repeats_typeRef (declared : Option Nullness) :
    Repeats run lexemes (typeRef declared) (typeRef declared) (TypeTold run declared) :=
  Repeats.remaining (repeats_typeWithin declared (Nat.le_refl _) (Nat.le_refl _))

/-- Both runs take the words of a type that carries all its marks. -/
theorem repeats_plainType :
    Repeats run lexemes plainType plainType
      (ToldBy (fun type => AllConsistent (type.sites [])) TypeTree.words
        (TypeTree.plainIn run.mode) (TypeTree.plainIn run.mode')) :=
  repeats_typeRef none

/-! ## Type parameters -/

theorem repeats_typeParam :
    Repeats run lexemes typeParam typeParam
      (ToldBy (fun param => AllConsistent param.sites) TypeParamTree.words
        (TypeParamTree.paramIn run.mode) (TypeParamTree.paramIn run.mode')) := by
  refine (repeats_identifier .typeParameter).bind fun name name' words rest taken _ => ?_
  obtain ⟨rfl, rfl⟩ := taken
  refine (repeats_skipWord "extends").bind fun found found' words rest taken _ => ?_
  obtain ⟨rfl, rfl⟩ := taken
  cases found' with
  | false =>
      refine repeats_pure ⟨⟨name.text, []⟩, List.forall_mem_nil _, rfl, rfl, ?_⟩
      simp [TypeParamTree.paramIn, run.text_move]
  | true =>
      refine (repeats_separated rfl fun _ _ => repeats_plainType).bind
        fun found found' words rest told _ => ?_
      obtain ⟨bounds, filled, consistent, rfl, rfl, rfl⟩ := told
      refine repeats_pure ⟨⟨name.text, bounds⟩, allConsistent_flatMap.mpr consistent, ?_, rfl, ?_⟩
      · simp [TypeParamTree.words, filled]
      · simp [TypeParamTree.paramIn, run.text_move]

theorem repeats_typeParams :
    Repeats run lexemes typeParams typeParams
      (ToldBy (fun params => AllConsistent (params.flatMap TypeParamTree.sites))
        TypeParamTree.listWords (List.map (TypeParamTree.paramIn run.mode))
        (List.map (TypeParamTree.paramIn run.mode'))) := by
  refine (repeats_skip rfl).bind fun found found' words rest taken _ => ?_
  obtain ⟨rfl, rfl⟩ := taken
  cases found' with
  | false => exact repeats_pure ⟨[], List.forall_mem_nil _, rfl, rfl, rfl⟩
  | true =>
      refine (repeats_separated rfl fun _ _ => repeats_typeParam).bind
        fun found found' words rest told _ => ?_
      obtain ⟨params, filled, consistent, rfl, rfl, rfl⟩ := told
      refine (repeats_expect rfl).bind fun _ _ words rest taken _ => ?_
      subst taken
      exact repeats_pure ⟨params, allConsistent_flatMap.mpr consistent,
        by simp [TypeParamTree.listWords, filled], rfl, rfl⟩

end ApiCompat.Signature
