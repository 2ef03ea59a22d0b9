import ApiCompat.Proofs.Modifiers.Words
import ApiCompat.Proofs.Signature.Captured

/-!
# The front of a declaration, lexeme by lexeme

A declaration begins with annotations and modifier words.  `FrontItem` is one
of them as it stands in a text, and carries the proof that it is one.  An
annotation goes up to the end of its name, or to the parenthesis that balances
the first one behind it (`Balanced`).  What `preamble` takes is a list of such
items, and what it returns is told by them (`preamble_eq_ok`).
-/

set_option autoImplicit false

namespace ApiCompat.Signature

open Reader

/-! ## Balanced parentheses -/

def kindCount (kind : TokenKind) (lexemes : List Lexeme) : Nat :=
  lexemes.countP fun lexeme => lexeme.kind == kind

/-- The last lexeme closes the last of the parentheses, of which `depth` are open before the
first one, and no lexeme before it does. -/
structure Closes (depth : Nat) (lexemes : List Lexeme) : Prop where
  within : ∀ front back, lexemes = front ++ back → back ≠ [] →
    kindCount .rightParen front < depth + kindCount .leftParen front
  closed : depth + kindCount .leftParen lexemes = kindCount .rightParen lexemes

/-- The first lexeme is a parenthesis, and the last one is that which balances it. -/
structure Balanced (lexemes : List Lexeme) : Prop where
  opens : ∃ first rest, lexemes = first :: rest ∧ first.kind = .leftParen
  within : ∀ front back, lexemes = front ++ back → front ≠ [] → back ≠ [] →
    kindCount .rightParen front < kindCount .leftParen front
  closed : kindCount .leftParen lexemes = kindCount .rightParen lexemes

@[simp] theorem kindCount_nil (kind : TokenKind) : kindCount kind [] = 0 := rfl

theorem kindCount_cons (kind : TokenKind) (lexeme : Lexeme) (rest : List Lexeme) :
    kindCount kind (lexeme :: rest) =
      (if lexeme.kind = kind then 1 else 0) + kindCount kind rest := by
  simp only [kindCount, List.countP_cons, beq_iff_eq]
  exact Nat.add_comm _ _

/-- Reading one lexeme, the open parentheses are counted with it. -/
theorem depthAfter_spec {depth : Nat} (opened : 0 < depth) (lexeme : Lexeme) :
    depthAfter depth lexeme.kind + (if lexeme.kind = .rightParen then 1 else 0) =
      depth + (if lexeme.kind = .leftParen then 1 else 0) := by
  cases kind : lexeme.kind <;> simp [depthAfter]
  omega

theorem closes_cons {depth : Nat} (opened : 0 < depth) (lexeme : Lexeme) {rest : List Lexeme}
    (filled : rest ≠ []) :
    Closes depth (lexeme :: rest) ↔
      0 < depthAfter depth lexeme.kind ∧ Closes (depthAfter depth lexeme.kind) rest := by
  have count := depthAfter_spec opened lexeme
  constructor
  · rintro ⟨within, closed⟩
    have first := within [lexeme] rest rfl filled
    simp only [kindCount_cons, kindCount_nil] at first
    refine ⟨by omega, fun front back whole behind => ?_, ?_⟩
    · have longer := within (lexeme :: front) back (by rw [whole]; rfl) behind
      rw [kindCount_cons, kindCount_cons] at longer
      omega
    · rw [kindCount_cons, kindCount_cons] at closed
      omega
  · rintro ⟨still, within, closed⟩
    refine ⟨fun front back whole behind => ?_, ?_⟩
    · cases front with
      | nil => simpa using opened
      | cons first front =>
          obtain ⟨rfl, later⟩ := List.cons.inj whole
          have shorter := within front back later behind
          rw [kindCount_cons, kindCount_cons]
          omega
    · rw [kindCount_cons, kindCount_cons]
      omega

theorem closes_single {depth : Nat} (opened : 0 < depth) (lexeme : Lexeme) :
    Closes depth [lexeme] ↔ depthAfter depth lexeme.kind = 0 := by
  have count := depthAfter_spec opened lexeme
  constructor
  · rintro ⟨_, closed⟩
    simp only [kindCount_cons, kindCount_nil] at closed
    omega
  · intro closed
    refine ⟨fun front back whole behind => ?_, ?_⟩
    · cases front with
      | nil => simpa using opened
      | cons first front =>
          obtain ⟨_, later⟩ := List.cons.inj whole
          exact absurd (List.append_eq_nil_iff.mp later.symm).2 behind
    · simp only [kindCount_cons, kindCount_nil]
      omega

/-- The cut is where the last parenthesis is closed. -/
theorem splitArguments_iff {depth : Nat} (opened : 0 < depth) {lexemes args rest : List Lexeme} :
    splitArguments depth lexemes = some (args, rest) ↔
      lexemes = args ++ rest ∧ args ≠ [] ∧ Closes depth args := by
  induction lexemes generalizing depth args with
  | nil =>
      refine ⟨nofun, ?_⟩
      rintro ⟨whole, filled, _⟩
      exact absurd (List.append_eq_nil_iff.mp whole.symm).1 filled
  | cons next lexemes ih =>
      rw [splitArguments_cons]
      by_cases last : depthAfter depth next.kind = 0
      · rw [if_pos last]
        constructor
        · intro cut
          obtain ⟨rfl, rfl⟩ := Prod.mk.inj (Option.some.inj cut)
          exact ⟨rfl, List.cons_ne_nil _ _, (closes_single opened next).mpr last⟩
        · rintro ⟨whole, filled, closes⟩
          obtain ⟨first, later, rfl⟩ := List.exists_cons_of_ne_nil filled
          obtain ⟨rfl, rfl⟩ := List.cons.inj whole
          cases later with
          | nil => rfl
          | cons second later =>
              have still := ((closes_cons opened next (List.cons_ne_nil _ _)).mp closes).1
              omega
      · rw [if_neg last, Option.map_eq_some_iff]
        have still : 0 < depthAfter depth next.kind := Nat.pos_of_ne_zero last
        constructor
        · rintro ⟨⟨more, behind⟩, cut, same⟩
          obtain ⟨rfl, rfl⟩ := Prod.mk.inj same
          obtain ⟨rfl, filled, closes⟩ := (ih still).mp cut
          exact ⟨rfl, List.cons_ne_nil _ _, (closes_cons opened next filled).mpr ⟨still, closes⟩⟩
        · rintro ⟨whole, filled, closes⟩
          obtain ⟨first, later, rfl⟩ := List.exists_cons_of_ne_nil filled
          obtain ⟨rfl, rfl⟩ := List.cons.inj whole
          cases later with
          | nil => exact absurd ((closes_single opened next).mp closes) last
          | cons second later =>
              have closes := ((closes_cons opened next (List.cons_ne_nil _ _)).mp closes).2
              exact ⟨(second :: later, rest),
                (ih still).mpr ⟨rfl, List.cons_ne_nil _ _, closes⟩, rfl⟩

theorem balanced_cons {first : Lexeme} (opening : first.kind = .leftParen) (rest : List Lexeme) :
    Balanced (first :: rest) ↔ rest ≠ [] ∧ Closes 1 rest := by
  have one : ∀ kind, kindCount kind (first :: rest) =
      (if .leftParen = kind then 1 else 0) + kindCount kind rest := by
    intro kind
    rw [kindCount_cons, opening]
  constructor
  · rintro ⟨_, within, closed⟩
    rw [one, one] at closed
    refine ⟨?_, fun front back whole behind => ?_, ?_⟩
    · rintro rfl
      simp at closed
    · have longer := within (first :: front) back (by rw [whole]; rfl) (List.cons_ne_nil _ _) behind
      rw [kindCount_cons, kindCount_cons, opening] at longer
      simpa using longer
    · simpa using closed
  · rintro ⟨_, within, closed⟩
    refine ⟨⟨first, rest, rfl, opening⟩, fun front back whole filled behind => ?_, ?_⟩
    · cases front with
      | nil => exact absurd rfl filled
      | cons start front =>
          obtain ⟨rfl, later⟩ := List.cons.inj whole
          have shorter := within front back later behind
          rw [kindCount_cons, kindCount_cons, opening]
          simpa using shorter
    · rw [one, one]
      simpa using closed

/-- Arguments are cut off where they are balanced. -/
theorem splitArguments_balanced {next : Lexeme} (opening : next.kind = .leftParen)
    {lexemes args rest : List Lexeme} :
    splitArguments 0 (next :: lexemes) = some (args, rest) ↔
      next :: lexemes = args ++ rest ∧ Balanced args := by
  rw [splitArguments_cons, opening]
  simp only [depthAfter, Nat.zero_add, Nat.one_ne_zero, if_false, Option.map_eq_some_iff]
  constructor
  · rintro ⟨⟨more, behind⟩, cut, same⟩
    obtain ⟨rfl, rfl⟩ := Prod.mk.inj same
    obtain ⟨rfl, inner⟩ := (splitArguments_iff Nat.one_pos).mp cut
    exact ⟨rfl, (balanced_cons opening more).mpr inner⟩
  · rintro ⟨whole, balanced⟩
    obtain ⟨first, later, rfl, kind⟩ := balanced.opens
    obtain ⟨rfl, rfl⟩ := List.cons.inj whole
    have inner := (balanced_cons kind later).mp balanced
    exact ⟨(later, rest), (splitArguments_iff Nat.one_pos).mpr ⟨rfl, inner⟩, rfl⟩

/-! ## Annotations -/

def dottedLexemes (dotted : List (Lexeme × Lexeme)) : List Lexeme :=
  dotted.flatMap fun pair => [pair.1, pair.2]

/-- An annotation as it stands in a text: its sign, its name and its arguments with their
parentheses. -/
structure AnnotationUse where
  sign : Lexeme
  first : Lexeme
  dotted : List (Lexeme × Lexeme)
  arguments : List Lexeme
  isSign : sign.kind = .atSign
  isWord : first.kind = .identifier
  areDotted : ∀ pair ∈ dotted, pair.1.kind = .dot ∧ pair.2.kind = .identifier
  enclosed : arguments = [] ∨ Balanced arguments

namespace AnnotationUse

def lexemes (use : AnnotationUse) : List Lexeme :=
  use.sign :: use.first :: (dottedLexemes use.dotted ++ use.arguments)

def name (use : AnnotationUse) : String :=
  joinWith "." (use.first.text :: use.dotted.map fun pair => pair.2.text)

def source (use : AnnotationUse) : String := Lexeme.sourceText use.lexemes

/-- Neither the name nor arguments go on behind the annotation. -/
structure EndsBefore (use : AnnotationUse) (rest : List Lexeme) : Prop where
  noArguments : use.arguments = [] → ∀ next ∈ rest.head?, next.kind ≠ .leftParen
  noWord : use.arguments = [] → ∀ dot word later, rest = dot :: word :: later →
    ¬(dot.kind = .dot ∧ word.kind = .identifier)

end AnnotationUse

theorem splitDotted_eq (lexemes : List Lexeme) :
    ∃ dotted, (splitDotted lexemes).1 = dotted.map Prod.snd ∧
      lexemes = dottedLexemes dotted ++ (splitDotted lexemes).2 ∧
      (∀ pair ∈ dotted, pair.1.kind = .dot ∧ pair.2.kind = .identifier) ∧
      ∀ dot word later, (splitDotted lexemes).2 = dot :: word :: later →
        ¬(dot.kind = .dot ∧ word.kind = .identifier) := by
  fun_induction splitDotted lexemes with
  | case1 dot word rest both later ih =>
      obtain ⟨dotted, words, whole, kinds, stops⟩ := ih
      refine ⟨(dot, word) :: dotted, ?_, ?_, List.forall_mem_cons.mpr ⟨both, kinds⟩, stops⟩
      · rw [words, List.map_cons]
      · simp only [dottedLexemes, List.flatMap_cons, List.cons_append, List.nil_append] at whole ⊢
        rw [← whole]
  | case2 dot word rest other =>
      refine ⟨[], rfl, rfl, by simp, ?_⟩
      intro dot' word' later whole
      injection whole with sameDot behind
      injection behind with sameWord
      rwa [← sameDot, ← sameWord]
  | case3 lexemes few =>
      exact ⟨[], rfl, rfl, by simp, fun dot word later same => absurd same (few dot word later)⟩

theorem splitDotted_dotted {dotted : List (Lexeme × Lexeme)}
    (kinds : ∀ pair ∈ dotted, pair.1.kind = .dot ∧ pair.2.kind = .identifier) {rest : List Lexeme}
    (stops : ∀ dot word later, rest = dot :: word :: later →
      ¬(dot.kind = .dot ∧ word.kind = .identifier)) :
    splitDotted (dottedLexemes dotted ++ rest) = (dotted.map Prod.snd, rest) := by
  induction dotted with
  | nil =>
      show splitDotted rest = ([], rest)
      unfold splitDotted
      split
      · next dot word later =>
          exact if_neg (stops dot word later rfl)
      · rfl
  | cons pair dotted ih =>
      obtain ⟨both, kinds⟩ := List.forall_mem_cons.mp kinds
      have whole : dottedLexemes (pair :: dotted) ++ rest =
          pair.1 :: pair.2 :: (dottedLexemes dotted ++ rest) := by simp [dottedLexemes]
      rw [whole, splitDotted, if_pos both, ih kinds]
      rfl

theorem annotationUse_eq_ok {context : Context} {lexemes rest : List Lexeme} {name source : String}
    (read : annotationUse context lexemes = .ok ((name, source), rest)) :
    ∃ use : AnnotationUse, lexemes = use.lexemes ++ rest ∧ use.name = name ∧
      use.source = source ∧ use.EndsBefore rest := by
  obtain ⟨body, sourceText⟩ := withSource_eq_ok read
  obtain ⟨sign, afterSign, signed, behindSign⟩ := bind_eq_ok body
  obtain ⟨rfl, isSign⟩ := expectKind_eq_ok signed
  obtain ⟨name', afterName, named, behindName⟩ := bind_eq_ok behindSign
  obtain ⟨_, afterArguments, argued, behindArguments⟩ := bind_eq_ok behindName
  obtain ⟨rfl, rfl⟩ := pure_eq_ok behindArguments
  obtain ⟨first, later, word, behindWord⟩ := bind_eq_ok named
  obtain ⟨rfl, isWord⟩ := expectKind_eq_ok word
  rw [bind_ok (remaining_apply context later), bind_ok (continueWith_apply context later _)]
    at behindWord
  obtain ⟨rfl, rfl⟩ := pure_eq_ok behindWord
  obtain ⟨dotted, words, whole, areDotted, stops⟩ := splitDotted_eq later
  have cut : ∀ taken behind : List Lexeme,
      (taken ++ behind).take ((taken ++ behind).length - behind.length) = taken := by
    intro taken behind
    rw [List.length_append, Nat.add_sub_cancel, List.take_left]
  have texts : (splitDotted later).1.map Lexeme.text = dotted.map fun pair => pair.2.text := by
    rw [words, List.map_map]
    rfl
  rcases annotationArguments_eq_ok argued with ⟨same, noParen⟩ | ⟨next, more, split, opening⟩
  · let use : AnnotationUse := ⟨sign, first, dotted, [], isSign, isWord, areDotted, .inl rfl⟩
    have taken : sign :: first :: later = use.lexemes ++ afterArguments := by
      simp only [AnnotationUse.lexemes, use, List.append_nil, List.cons_append, ← same]
      rw [← whole]
    refine ⟨use, taken, ?_, ?_, fun _ => noParen, fun _ => same ▸ stops⟩
    · simp only [AnnotationUse.name, use, texts]
    · rw [sourceText, taken, cut]
      rfl
  · cases behind : (splitDotted later).2 with
    | nil => simp [behind, splitArguments] at split
    | cons next' behind' =>
        rw [behind] at split whole
        have opening' : next'.kind = .leftParen := by
          obtain ⟨same, _⟩ := List.cons.inj (splitArguments_follow split).1
          rwa [same]
        obtain ⟨args, balanced⟩ := (splitArguments_balanced opening').mp split
        let use : AnnotationUse :=
          ⟨sign, first, dotted, next :: more, isSign, isWord, areDotted, .inr balanced⟩
        have taken : sign :: first :: later = use.lexemes ++ afterArguments := by
          simp only [AnnotationUse.lexemes, use, List.cons_append, List.append_assoc]
          rw [whole, args]
          rfl
        have filled : use.arguments ≠ [] := List.cons_ne_nil next more
        refine ⟨use, taken, ?_, ?_, fun none => absurd none filled, fun none => absurd none filled⟩
        · simp only [AnnotationUse.name, use, texts]
        · rw [sourceText, taken, cut]
          rfl

theorem expectKind_here {kind : TokenKind} {next : Lexeme} (same : next.kind = kind)
    (expected : Expected) (context : Context) (rest : List Lexeme) :
    expectKind kind expected context (next :: rest) = .ok (next, rest) := by
  have taken : takeIf? (fun lexeme => lexeme.kind == kind) context (next :: rest) =
      .ok (some next, rest) := by simp [takeIf?, same]
  exact bind_ok taken

theorem annotationArguments_none {rest : List Lexeme}
    (stops : ∀ next ∈ rest.head?, next.kind ≠ .leftParen) (context : Context) :
    annotationArguments context rest = .ok ((), rest) := by
  have noParen : rest.head?.any (fun next => next.kind == .leftParen) = false := by
    cases rest with
    | nil => rfl
    | cons next rest => simpa using stops next rfl
  rw [annotationArguments, bind_ok (isNext_apply .leftParen context rest), noParen]
  rfl

theorem AnnotationUse.arguments_apply (use : AnnotationUse) {rest : List Lexeme}
    (ends : use.EndsBefore rest) (context : Context) :
    annotationArguments context (use.arguments ++ rest) = .ok ((), rest) := by
  rcases use.enclosed with none | balanced
  · rw [none]
    exact annotationArguments_none (ends.noArguments none) context
  · obtain ⟨next, more, shape, opening⟩ := balanced.opens
    rw [shape] at balanced ⊢
    exact annotationArguments_open opening ((splitArguments_balanced opening).mpr ⟨rfl, balanced⟩)

/-- No word continues the name, whether arguments follow or not. -/
theorem AnnotationUse.EndsBefore.stopsName {use : AnnotationUse} {rest : List Lexeme}
    (ends : use.EndsBefore rest) : ∀ dot word later, use.arguments ++ rest = dot :: word :: later →
      ¬(dot.kind = .dot ∧ word.kind = .identifier) := by
  rintro dot word later whole ⟨isDot, isIdent⟩
  rcases use.enclosed with none | balanced
  · rw [none] at whole
    exact ends.noWord none dot word later whole ⟨isDot, isIdent⟩
  · obtain ⟨next, more, shape, opening⟩ := balanced.opens
    rw [shape] at whole
    obtain ⟨rfl, _⟩ := List.cons.inj whole
    exact absurd (isDot.symm.trans opening) TokenKind.noConfusion

theorem annotationUse_apply (use : AnnotationUse) {rest : List Lexeme}
    (ends : use.EndsBefore rest) (context : Context) :
    annotationUse context (use.lexemes ++ rest) = .ok ((use.name, use.source), rest) := by
  have dotted := splitDotted_dotted use.areDotted ends.stopsName
  have texts : (use.dotted.map Prod.snd).map Lexeme.text =
      use.dotted.map fun pair => pair.2.text := by
    rw [List.map_map]
    rfl
  have whole : use.lexemes ++ rest =
      use.sign :: use.first :: (dottedLexemes use.dotted ++ (use.arguments ++ rest)) := by
    simp [AnnotationUse.lexemes]
  have named : qualifiedName .annotationName context
      (use.first :: (dottedLexemes use.dotted ++ (use.arguments ++ rest))) =
        .ok (use.name, use.arguments ++ rest) := by
    rw [qualifiedName, identifier, bind_ok (expectKind_here use.isWord _ context _),
      bind_ok (remaining_apply context _), dotted, bind_ok (continueWith_apply context _ _), texts]
    rfl
  have body : (do
      let _ ← expect .atSign
      let name ← qualifiedName .annotationName
      annotationArguments
      return name) context (use.lexemes ++ rest) = .ok (use.name, rest) := by
    rw [whole, expect, bind_ok (expectKind_here use.isSign _ context _), bind_ok named,
      bind_ok (use.arguments_apply ends context)]
    rfl
  have taken : (use.lexemes ++ rest).take ((use.lexemes ++ rest).length - rest.length) =
      use.lexemes := by
    rw [List.length_append, Nat.add_sub_cancel, List.take_left]
  rw [annotationUse, withSource, bind_ok (remaining_apply context _), bind_ok body,
    bind_ok (remaining_apply context rest), taken]
  rfl

/-! ## Fronts -/

structure ModifierUse where
  lexeme : Lexeme
  meaning : ModifierWord
  isWord : lexeme.kind = .identifier
  known : ModifierWord.ofWord? lexeme.text = some meaning

/-- One of the things that stand in front of a declaration; `@interface` is none of them. -/
inductive FrontItem where
  | annotated (use : AnnotationUse) (free : use.first.text ≠ "interface")
  | modifier (use : ModifierUse)

namespace FrontItem

def lexemes : FrontItem → List Lexeme
  | annotated use _ => use.lexemes
  | modifier use => [use.lexeme]

def nullness? : FrontItem → Option Nullness
  | annotated use _ => Nullness.ofAnnotation? use.name
  | modifier _ => none

/-- The text of an annotation that is kept; those of nullness are not. -/
def kept? : FrontItem → Option String
  | annotated use _ => if (Nullness.ofAnnotation? use.name).isSome then none else some use.source
  | modifier _ => none

def apply (modifiers : Modifiers) : FrontItem → Modifiers
  | annotated use _ =>
      if (Nullness.ofAnnotation? use.name).isSome then modifiers else modifiers.annotate use.source
  | modifier use => modifiers.add use.meaning

end FrontItem

def frontLexemes (front : List FrontItem) : List Lexeme := front.flatMap FrontItem.lexemes

def nullnessMarks (front : List FrontItem) : List Nullness := front.filterMap FrontItem.nullness?

structure EndsFront (rest : List Lexeme) : Prop where
  noModifier : ∀ next ∈ rest.head?, next.kind = .identifier → ModifierWord.ofWord? next.text = none
  noAnnotation : ∀ next ∈ rest.head?, next.kind = .atSign →
    rest.tail.head?.any (fun lexeme => lexeme.text == "interface") = true

/-- The annotations of the front end before what is behind them. -/
def EachEnds (front : List FrontItem) (rest : List Lexeme) : Prop :=
  ∀ before use free behind, front = before ++ .annotated use free :: behind →
    use.EndsBefore (frontLexemes behind ++ rest)

/-- The marks agree on what was found, and without any nothing was. -/
structure Settles (marks : List Nullness) (found : Option Nullness) : Prop where
  agree : ∀ mark ∈ marks, found = some mark
  unmarked : marks = [] → found = none

/-- What stands in front of `rest` and what it says, on top of what was read before. -/
structure FrontOf (sofar found : Preamble) (lexemes : List Lexeme) (front : List FrontItem)
    (rest : List Lexeme) : Prop where
  whole : lexemes = frontLexemes front ++ rest
  modifiers : found.modifiers = front.foldl FrontItem.apply sofar.modifiers
  nullness : Settles (sofar.nullness.toList ++ nullnessMarks front) found.nullness
  eachEnds : EachEnds front rest
  ends : EndsFront rest

/-- An annotation ends before these lexemes; a modifier word ends anyhow. -/
def FrontItem.EndsBefore (item : FrontItem) (behind : List Lexeme) : Prop :=
  ∀ use free, item = .annotated use free → use.EndsBefore behind

def Preamble.addItem (sofar : Preamble) (item : FrontItem) : Preamble where
  modifiers := item.apply sofar.modifiers
  nullness := item.nullness?.or sofar.nullness

def FrontItem.Agrees (item : FrontItem) (sofar : Preamble) : Prop :=
  ∀ mark ∈ item.nullness?, ∀ other ∈ sofar.nullness, other = mark

theorem FrontItem.endsBefore_modifier (use : ModifierUse) (behind : List Lexeme) :
    (FrontItem.modifier use).EndsBefore behind := by
  intro _ _ same
  cases same

theorem FrontItem.agrees_of_unmarked {item : FrontItem} (unmarked : item.nullness? = none)
    (sofar : Preamble) : item.Agrees sofar := by
  intro mark isMark
  rw [unmarked] at isMark
  cases isMark

theorem nullnessMarks_cons_none {item : FrontItem} (unmarked : item.nullness? = none)
    (front : List FrontItem) : nullnessMarks (item :: front) = nullnessMarks front :=
  List.filterMap_cons_none unmarked

theorem nullnessMarks_cons_some {item : FrontItem} {mark : Nullness}
    (isMark : item.nullness? = some mark) (front : List FrontItem) :
    nullnessMarks (item :: front) = mark :: nullnessMarks front :=
  List.filterMap_cons_some isMark

theorem FrontItem.length_pos (item : FrontItem) : 0 < item.lexemes.length := by
  cases item <;> exact Nat.succ_pos _

/-- Nothing stands in front of lexemes that begin otherwise. -/
theorem frontOf_nothing {sofar : Preamble} {rest : List Lexeme} (ends : EndsFront rest) :
    FrontOf sofar sofar rest [] rest where
  whole := rfl
  modifiers := rfl
  nullness := by
    cases sofar.nullness with
    | none => exact ⟨by simp [nullnessMarks], fun _ => rfl⟩
    | some nullness => exact ⟨by simp [nullnessMarks], by simp⟩
  eachEnds := by
    intro before use free behind whole
    exact absurd whole.symm (List.append_ne_nil_of_right_ne_nil _ (List.cons_ne_nil _ _))
  ends := ends

/-- An item is added to the front that is read behind it. -/
theorem FrontOf.cons {sofar found : Preamble} {item : FrontItem} {behind rest : List Lexeme}
    {front : List FrontItem} (later : FrontOf (sofar.addItem item) found behind front rest)
    (ends : item.EndsBefore behind) (agrees : item.Agrees sofar) :
    FrontOf sofar found (item.lexemes ++ behind) (item :: front) rest where
  whole := by
    rw [later.whole, frontLexemes, frontLexemes, List.flatMap_cons, List.append_assoc]
  modifiers := by
    rw [later.modifiers, List.foldl_cons]
    rfl
  nullness := by
    have settled := later.nullness
    cases isMark : item.nullness? with
    | none =>
        simpa [nullnessMarks_cons_none isMark, Preamble.addItem, isMark] using settled
    | some mark =>
        have isFound : found.nullness = some mark :=
          settled.agree mark (by simp [Preamble.addItem, isMark])
        rw [nullnessMarks_cons_some isMark]
        refine ⟨fun other member => ?_, by simp⟩
        rcases List.mem_append.mp member with before | member
        · obtain rfl := agrees mark isMark other (by simpa using before)
          exact isFound
        · rcases List.mem_cons.mp member with rfl | member
          · exact isFound
          · exact settled.agree other (List.mem_append_right _ member)
  eachEnds := by
    intro before use free more whole
    cases before with
    | nil =>
        obtain ⟨rfl, rfl⟩ := List.cons.inj whole
        exact later.whole ▸ ends use free rfl
    | cons first before => exact later.eachEnds before use free more (List.cons.inj whole).2
  ends := later.ends

theorem mergeNullness_eq_ok {declared found : Option Nullness} {incoming : Nullness} {line : Nat}
    {context : Context} {lexemes rest : List Lexeme}
    (read : mergeNullness declared incoming line context lexemes = .ok (found, rest)) :
    found = some incoming ∧ lexemes = rest ∧ ∀ nullness ∈ declared, nullness = incoming := by
  cases declared with
  | none =>
      obtain ⟨rfl, rfl⟩ := pure_eq_ok read
      exact ⟨rfl, rfl, by simp⟩
  | some nullness =>
      by_cases same : nullness = incoming
      · rw [mergeNullness, if_pos same] at read
        obtain ⟨rfl, rfl⟩ := pure_eq_ok read
        exact ⟨rfl, rfl, by simp [same]⟩
      · rw [mergeNullness, if_neg same] at read
        cases read

theorem endsFront_cons {next : Lexeme} {later : List Lexeme} :
    EndsFront (next :: later) ↔
      (next.kind = .identifier → ModifierWord.ofWord? next.text = none) ∧
      (next.kind = .atSign →
        later.head?.any (fun lexeme => lexeme.text == "interface") = true) := by
  constructor
  · intro ends
    exact ⟨ends.noModifier next rfl, ends.noAnnotation next rfl⟩
  · rintro ⟨noModifier, noAnnotation⟩
    constructor
    · intro first isFirst
      obtain rfl := Option.some.inj isFirst
      exact noModifier
    · intro first isFirst
      obtain rfl := Option.some.inj isFirst
      exact noAnnotation

/-- An annotation that is read is an item of the front. -/
theorem preambleFrom_annotated {rounds line : Nat} {sofar found : Preamble} {context : Context}
    (lexemes : List Lexeme) {rest behind : List Lexeme} {name source : String}
    (free : lexemes.tail.head?.any (fun lexeme => lexeme.text == "interface") = false)
    (used : annotationUse context lexemes = .ok ((name, source), behind))
    (read : (match Nullness.ofAnnotation? name with
      | some nullness => do
          let nullness ← mergeNullness sofar.nullness nullness line
          preambleFrom rounds { sofar with nullness }
      | none => preambleFrom rounds { sofar with modifiers := sofar.modifiers.annotate source })
        context behind = .ok (found, rest)) :
    ∃ item, lexemes = item.lexemes ++ behind ∧ item.EndsBefore behind ∧ item.Agrees sofar ∧
      preambleFrom rounds (sofar.addItem item) context behind = .ok (found, rest) := by
  obtain ⟨use, rfl, rfl, rfl, own⟩ := annotationUse_eq_ok used
  have isFree : use.first.text ≠ "interface" := by
    simpa [AnnotationUse.lexemes] using free
  have ends : (FrontItem.annotated use isFree).EndsBefore behind := by
    intro use' free' same
    obtain rfl : use = use' := by injection same
    exact own
  refine ⟨.annotated use isFree, rfl, ends, ?_⟩
  cases known : Nullness.ofAnnotation? use.name with
  | none =>
      simp only [known] at read
      simpa [FrontItem.Agrees, Preamble.addItem, FrontItem.apply, FrontItem.nullness?,
        known] using read
  | some mark =>
      simp only [known] at read
      obtain ⟨merged, left, readMerged, readNext⟩ := bind_eq_ok read
      obtain ⟨rfl, rfl, agree⟩ := mergeNullness_eq_ok readMerged
      simp only [FrontItem.Agrees, Preamble.addItem, FrontItem.apply, FrontItem.nullness?, known,
        Option.isSome_some, if_true, Option.some_or]
      refine ⟨fun mark' isMark other before => ?_, readNext⟩
      obtain rfl := Option.some.inj isMark
      exact agree other before

/-- A round that succeeds ends the front or reads one item of it. -/
theorem preambleFrom_step {rounds : Nat} {sofar found : Preamble} {context : Context}
    {lexemes rest : List Lexeme}
    (read : preambleFrom (rounds + 1) sofar context lexemes = .ok (found, rest)) :
    (sofar = found ∧ lexemes = rest ∧ EndsFront lexemes) ∨
      ∃ item behind, lexemes = item.lexemes ++ behind ∧ item.EndsBefore behind ∧
        item.Agrees sofar ∧
        preambleFrom rounds (sofar.addItem item) context behind = .ok (found, rest) := by
  rw [preambleFrom, bind_ok (remaining_apply context lexemes)] at read
  cases lexemes with
  | nil =>
      obtain ⟨same, atEnd⟩ := pure_eq_ok read
      exact .inl ⟨same, atEnd, by simp, by simp⟩
  | cons next later =>
      by_cases sign : next.kind = .atSign
      · have noWord : next.kind ≠ .identifier := by
          rw [sign]
          exact TokenKind.noConfusion
        simp only [sign, if_true] at read
        cases announced : later.head?.any (fun lexeme => lexeme.text == "interface") with
        | true =>
            simp only [announced, if_true] at read
            obtain ⟨same, atEnd⟩ := pure_eq_ok read
            have ends : EndsFront (next :: later) :=
              endsFront_cons.mpr ⟨fun kind => absurd kind noWord, fun _ => announced⟩
            exact .inl ⟨same, atEnd, ends⟩
        | false =>
            simp only [announced, Bool.false_eq_true, if_false] at read
            obtain ⟨⟨name, source⟩, behind, used, readNext⟩ := bind_eq_ok read
            obtain ⟨item, whole⟩ := preambleFrom_annotated (next :: later) announced used readNext
            exact .inr ⟨item, behind, whole⟩
      · by_cases isWord : next.kind = .identifier
        · simp only [isWord, reduceCtorEq, if_false, if_true] at read
          cases known : ModifierWord.ofWord? next.text with
          | none =>
              simp only [Modifiers.applyWord?, known, Option.map_none] at read
              obtain ⟨same, atEnd⟩ := pure_eq_ok read
              have ends : EndsFront (next :: later) :=
                endsFront_cons.mpr ⟨fun _ => known, fun kind => absurd kind sign⟩
              exact .inl ⟨same, atEnd, ends⟩
          | some meaning =>
              simp only [Modifiers.applyWord?, known, Option.map_some] at read
              rw [bind_ok (continueWith_apply context _ later)] at read
              exact .inr ⟨.modifier ⟨next, meaning, isWord, known⟩, later, rfl,
                FrontItem.endsBefore_modifier _ _, FrontItem.agrees_of_unmarked rfl _, read⟩
        · simp only [sign, isWord, if_false] at read
          obtain ⟨same, atEnd⟩ := pure_eq_ok read
          have ends : EndsFront (next :: later) :=
            endsFront_cons.mpr ⟨fun kind => absurd kind isWord, fun kind => absurd kind sign⟩
          exact .inl ⟨same, atEnd, ends⟩

theorem preambleFrom_eq_ok {rounds : Nat} {sofar found : Preamble} {context : Context}
    {lexemes rest : List Lexeme} (enough : lexemes.length ≤ rounds)
    (read : preambleFrom rounds sofar context lexemes = .ok (found, rest)) :
    ∃ front, FrontOf sofar found lexemes front rest := by
  induction rounds generalizing sofar lexemes with
  | zero =>
      obtain rfl := List.length_eq_zero_iff.mp (Nat.le_zero.mp enough)
      obtain ⟨rfl, rfl⟩ := pure_eq_ok read
      exact ⟨[], frontOf_nothing ⟨by simp, by simp⟩⟩
  | succ rounds ih =>
      rcases preambleFrom_step read with ⟨rfl, rfl, ends⟩ | ⟨item, behind, rfl, ends, agrees, later⟩
      · exact ⟨[], frontOf_nothing ends⟩
      · have positive := item.length_pos
        rw [List.length_append] at enough
        obtain ⟨front, isFront⟩ := ih (by omega) later
        exact ⟨item :: front, isFront.cons ends agrees⟩

/-- What a preamble takes is a front, and what it returns is told by it. -/
theorem preamble_eq_ok {found : Preamble} {context : Context} {lexemes rest : List Lexeme}
    (read : preamble context lexemes = .ok (found, rest)) :
    ∃ front, FrontOf {} found lexemes front rest := by
  rw [preamble, bind_ok (remaining_apply context lexemes)] at read
  exact preambleFrom_eq_ok (Nat.le_refl _) read

/-- The annotations that are kept, in the order in which they are written. -/
theorem annotations_foldl_apply (front : List FrontItem) (modifiers : Modifiers) :
    (front.foldl FrontItem.apply modifiers).annotations =
      modifiers.annotations ++ front.filterMap FrontItem.kept? := by
  induction front generalizing modifiers with
  | nil => simp
  | cons item front ih =>
      rw [List.foldl_cons, ih]
      cases item with
      | annotated use free =>
          cases known : Nullness.ofAnnotation? use.name with
          | none => simp [FrontItem.apply, FrontItem.kept?, known, Modifiers.annotate]
          | some nullness => simp [FrontItem.apply, FrontItem.kept?, known]
      | modifier use =>
          have kept : (modifiers.add use.meaning).annotations = modifiers.annotations := by
            cases use.meaning with
            | scope visibility => rfl
            | flag flag => exact (modifiers.raise_other flag).2
          rw [FrontItem.apply, kept, List.filterMap_cons_none rfl]

theorem FrontItem.kept?_eq_some_iff {item : FrontItem} {text : String} :
    item.kept? = some text ↔ ∃ use free, item = .annotated use free ∧
      Nullness.ofAnnotation? use.name = none ∧ use.source = text := by
  cases item with
  | annotated use free =>
      cases known : Nullness.ofAnnotation? use.name with
      | none => simp [kept?, known, free]
      | some nullness => simp [kept?, known]
  | modifier use => simp [kept?]

/-- An annotation of a front stands among the lexemes, before others that do not continue it. -/
theorem FrontOf.annotation {sofar found : Preamble} {lexemes rest : List Lexeme}
    {front : List FrontItem} (isFront : FrontOf sofar found lexemes front rest)
    {use : AnnotationUse} {free : use.first.text ≠ "interface"}
    (member : .annotated use free ∈ front) :
    ∃ behind, use.lexemes ++ behind <:+ lexemes ∧ use.EndsBefore behind := by
  obtain ⟨before, behind, rfl⟩ := List.append_of_mem member
  refine ⟨frontLexemes behind ++ rest, ⟨frontLexemes before, ?_⟩,
    isFront.eachEnds before use free behind rfl⟩
  rw [isFront.whole]
  simp [frontLexemes, FrontItem.lexemes]

end ApiCompat.Signature
