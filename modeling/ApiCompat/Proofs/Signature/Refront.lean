import ApiCompat.Proofs.Signature.Bodies
import ApiCompat.Proofs.Signature.PreambleTakes

/-!
# Fronts in another order

A front is read item by item (`preamble_eq_ok_iff`), and what it says is the
same for every rearrangement of its items (`Rearranges`): the annotations that
are kept and the words of visibility stay in order, and of the other items
there are the same ones, each at least once.  The gaps in front of the items
say nothing either (`Regapped`).
-/

set_option autoImplicit false

namespace ApiCompat.Signature

open Reader

variable {context : Context} {lexemes rest : List Lexeme} {sofar found : Preamble}
  {front : List FrontItem}

/-! ## Reading a front -/

/-- Nothing is taken where no front begins. -/
theorem preambleFrom_stop (ends : EndsFront rest) (rounds : Nat) (sofar : Preamble)
    (context : Context) : preambleFrom rounds sofar context rest = .ok (sofar, rest) := by
  cases rounds with
  | zero => rfl
  | succ rounds =>
      rw [preambleFrom, bind_ok (remaining_apply context rest)]
      cases rest with
      | nil => rfl
      | cons next later =>
          obtain ⟨noModifier, noAnnotation⟩ := endsFront_cons.mp ends
          by_cases sign : next.kind = .atSign
          · simp only [sign, noAnnotation sign, if_true]
            rfl
          · by_cases isWord : next.kind = .identifier
            · simp only [isWord, reduceCtorEq, if_false, if_true, Modifiers.applyWord?,
                noModifier isWord, Option.map_none]
              rfl
            · simp only [sign, isWord, if_false]
              rfl

/-- One round reads one item. -/
theorem preambleFrom_item {item : FrontItem} {behind : List Lexeme} (ends : item.EndsBefore behind)
    (agrees : item.Agrees sofar) (rounds : Nat) (context : Context) :
    preambleFrom (rounds + 1) sofar context (item.lexemes ++ behind) =
      preambleFrom rounds (sofar.addItem item) context behind := by
  cases item with
  | modifier use =>
      have applied : sofar.modifiers.applyWord? use.lexeme.text =
          some (sofar.modifiers.add use.meaning) := by
        rw [Modifiers.applyWord?, use.known]
        rfl
      exact preambleFrom_word use.isWord applied
  | annotated use free =>
      have notInterface : (use.first :: (dottedLexemes use.dotted ++ use.arguments) ++
          behind).head?.any (fun lexeme => lexeme.text == "interface") = false := by
        simpa using free
      have read := annotationUse_apply use (ends use free rfl) context
      cases known : Nullness.ofAnnotation? use.name with
      | none =>
          have added : sofar.addItem (.annotated use free) =
              { sofar with modifiers := sofar.modifiers.annotate use.source } := by
            simp [Preamble.addItem, FrontItem.apply, FrontItem.nullness?, known]
          rw [added]
          exact preambleFrom_atSign use.isSign notInterface read known
      | some mark =>
          have added : sofar.addItem (.annotated use free) =
              { sofar with nullness := some mark } := by
            simp [Preamble.addItem, FrontItem.apply, FrontItem.nullness?, known]
          rw [added]
          exact preambleFrom_mark use.isSign notInterface read known (agrees mark known)

/-- The first item of a front, and the front behind it. -/
theorem FrontOf.uncons {item : FrontItem}
    (isFront : FrontOf sofar found lexemes (item :: front) rest) :
    lexemes = item.lexemes ++ (frontLexemes front ++ rest) ∧
      item.EndsBefore (frontLexemes front ++ rest) ∧
      item.Agrees sofar ∧
      FrontOf (sofar.addItem item) found (frontLexemes front ++ rest) front rest := by
  have settled := isFront.nullness
  refine ⟨?_, ?_, ?_, rfl, ?_, ?_, ?_, isFront.ends⟩
  · rw [isFront.whole, frontLexemes, List.flatMap_cons, List.append_assoc]
    rfl
  · rintro use free rfl
    exact isFront.eachEnds [] use free front rfl
  · intro mark isMark other before
    have first := settled.agree mark (by simp [nullnessMarks, Option.mem_def.mp isMark])
    have second := settled.agree other (by simp [Option.mem_def.mp before])
    exact Option.some.inj (second.symm.trans first)
  · rw [isFront.modifiers, List.foldl_cons]
    rfl
  · cases isMark : item.nullness? with
    | none =>
        rw [nullnessMarks_cons_none isMark] at settled
        simpa [Preamble.addItem, isMark] using settled
    | some mark =>
        rw [nullnessMarks_cons_some isMark] at settled
        refine ⟨fun other member => settled.agree other ?_, by simp [Preamble.addItem, isMark]⟩
        refine List.mem_append_right _ ?_
        simpa [Preamble.addItem, isMark] using member
  · intro before use free behind whole
    exact isFront.eachEnds (item :: before) use free behind (by rw [whole]; rfl)

theorem preambleFrom_of_front {rounds : Nat} (enough : lexemes.length ≤ rounds)
    (isFront : FrontOf sofar found lexemes front rest) :
    preambleFrom rounds sofar context lexemes = .ok (found, rest) := by
  induction front generalizing sofar lexemes rounds with
  | nil =>
      obtain rfl : lexemes = rest := isFront.whole
      have nullness : found.nullness = sofar.nullness := by
        have settled := isFront.nullness
        rw [nullnessMarks, List.filterMap_nil, List.append_nil] at settled
        cases before : sofar.nullness with
        | none => exact settled.unmarked (by rw [before]; rfl)
        | some mark => exact settled.agree mark (by simp [before])
      have same : found = sofar := congrArg₂ Preamble.mk isFront.modifiers nullness
      rw [same]
      exact preambleFrom_stop isFront.ends rounds sofar context
  | cons item front ih =>
      obtain ⟨rfl, ends, agrees, later⟩ := isFront.uncons
      have positive := item.length_pos
      rw [List.length_append] at enough
      cases rounds with
      | zero => omega
      | succ rounds =>
          rw [preambleFrom_item ends agrees]
          exact ih (by omega) later

/-- A front is read just where there is one. -/
theorem preamble_eq_ok_iff : preamble context lexemes = .ok (found, rest) ↔
    ∃ front, FrontOf {} found lexemes front rest := by
  refine ⟨preamble_eq_ok, ?_⟩
  rintro ⟨front, isFront⟩
  rw [preamble, bind_ok (remaining_apply context lexemes)]
  exact preambleFrom_of_front (Nat.le_refl _) isFront

/-! ## What a front says -/

namespace FrontItem

def scope? : FrontItem → Option Visibility
  | annotated _ _ => none
  | modifier use =>
      match use.meaning with
      | .scope visibility => some visibility
      | .flag _ => none

def flag? : FrontItem → Option Flag
  | annotated _ _ => none
  | modifier use =>
      match use.meaning with
      | .scope _ => none
      | .flag flag => some flag

theorem visibility_apply (item : FrontItem) (modifiers : Modifiers) :
    (item.apply modifiers).visibility = item.scope?.getD modifiers.visibility := by
  cases item with
  | annotated use free =>
      rw [apply]
      split <;> rfl
  | modifier use =>
      cases meaning : use.meaning with
      | scope visibility => simp [apply, scope?, meaning, Modifiers.add]
      | flag flag => simp [apply, scope?, meaning, Modifiers.add, (modifiers.raise_other flag).1]

theorem has_apply (item : FrontItem) (modifiers : Modifiers) (flag : Flag) :
    (item.apply modifiers).has flag = (decide (item.flag? = some flag) || modifiers.has flag) := by
  cases item with
  | annotated use free =>
      rw [apply]
      split <;> cases flag <;> rfl
  | modifier use =>
      cases meaning : use.meaning with
      | scope visibility =>
          cases flag <;> simp [apply, flag?, meaning, Modifiers.add, Modifiers.has]
      | flag raised =>
          simp [apply, flag?, meaning, Modifiers.add, Modifiers.has_raise]

end FrontItem

/-- Of several words of visibility the last one stands. -/
theorem visibility_foldl_apply (front : List FrontItem) (modifiers : Modifiers) :
    (front.foldl FrontItem.apply modifiers).visibility =
      (front.filterMap FrontItem.scope?).getLast?.getD modifiers.visibility := by
  induction front generalizing modifiers with
  | nil => rfl
  | cons item front ih =>
      rw [List.foldl_cons, ih, item.visibility_apply]
      cases scope : item.scope? with
      | none => rw [List.filterMap_cons_none scope, Option.getD_none]
      | some visibility =>
          rw [List.filterMap_cons_some scope, List.getLast?_cons, Option.getD_some]
          rfl

/-- A flag is raised by any word for it. -/
theorem has_foldl_apply (front : List FrontItem) (modifiers : Modifiers) (flag : Flag) :
    (front.foldl FrontItem.apply modifiers).has flag =
      (decide (∃ item ∈ front, item.flag? = some flag) || modifiers.has flag) := by
  induction front generalizing modifiers with
  | nil => simp
  | cons item front ih =>
      rw [List.foldl_cons, ih, item.has_apply]
      by_cases own : item.flag? = some flag <;> simp [own]

/-! ## Rearranged fronts -/

/-- The items of the first front in another order.  The annotations that are kept and the words of
visibility stay in order; the other items may also be repeated. -/
structure Rearranges (front front' : List FrontItem) : Prop where
  kept : front'.filter (fun item => item.kept?.isSome) = front.filter fun item => item.kept?.isSome
  scopes : front'.filter (fun item => item.scope?.isSome) =
    front.filter fun item => item.scope?.isSome
  items : ∀ item, item ∈ front' ↔ item ∈ front

theorem rearranges_of_perm {front front' : List FrontItem} (permuted : front'.Perm front)
    (kept : front'.filter (fun item => item.kept?.isSome) =
      front.filter fun item => item.kept?.isSome)
    (scopes : front'.filter (fun item => item.scope?.isSome) =
      front.filter fun item => item.scope?.isSome) : Rearranges front front' :=
  ⟨kept, scopes, fun _ => permuted.mem_iff⟩

/-- A flag or an annotation of nullness that is there may be repeated anywhere. -/
theorem rearranges_repeat {before behind : List FrontItem} {item : FrontItem}
    (there : item ∈ before ++ behind) (notKept : item.kept? = none) (noScope : item.scope? = none) :
    Rearranges (before ++ behind) (before ++ item :: behind) where
  kept := by simp [notKept]
  scopes := by simp [noScope]
  items other := by
    simp only [List.mem_append, List.mem_cons] at there ⊢
    grind

namespace Rearranges

theorem trans {first second third : List FrontItem} (here : Rearranges first second)
    (there : Rearranges second third) : Rearranges first third :=
  ⟨there.kept.trans here.kept, there.scopes.trans here.scopes,
    fun item => (there.items item).trans (here.items item)⟩

variable {front' : List FrontItem} (rearranges : Rearranges front front')

include rearranges

theorem filterMap_kept? :
    front'.filterMap FrontItem.kept? = front.filterMap FrontItem.kept? := by
  have only : ∀ items : List FrontItem, (items.filter fun item => item.kept?.isSome).filterMap
      FrontItem.kept? = items.filterMap FrontItem.kept? := by
    intro items
    rw [List.filterMap_filter]
    refine List.filterMap_congr fun item _ => ?_
    cases item.kept? <;> rfl
  rw [← only front', rearranges.kept, only]

theorem filterMap_scope? :
    front'.filterMap FrontItem.scope? = front.filterMap FrontItem.scope? := by
  have only : ∀ items : List FrontItem, (items.filter fun item => item.scope?.isSome).filterMap
      FrontItem.scope? = items.filterMap FrontItem.scope? := by
    intro items
    rw [List.filterMap_filter]
    refine List.filterMap_congr fun item _ => ?_
    cases item.scope? <;> rfl
  rw [← only front', rearranges.scopes, only]

/-- The modifiers are the same. -/
theorem foldl_apply (modifiers : Modifiers) :
    front'.foldl FrontItem.apply modifiers = front.foldl FrontItem.apply modifiers := by
  refine Modifiers.ext_has ?_ ?_ fun flag => ?_
  · rw [visibility_foldl_apply, visibility_foldl_apply, rearranges.filterMap_scope?]
  · rw [annotations_foldl_apply, annotations_foldl_apply, rearranges.filterMap_kept?]
  · rw [has_foldl_apply, has_foldl_apply]
    simp only [rearranges.items]

theorem mem_nullnessMarks (mark : Nullness) :
    mark ∈ nullnessMarks front' ↔ mark ∈ nullnessMarks front := by
  simp only [nullnessMarks, List.mem_filterMap, rearranges.items]

theorem settles {nullness : Option Nullness} (settled : Settles (nullnessMarks front) nullness) :
    Settles (nullnessMarks front') nullness where
  agree mark member := settled.agree mark ((rearranges.mem_nullnessMarks mark).mp member)
  unmarked none := by
    refine settled.unmarked (List.eq_nil_iff_forall_not_mem.mpr fun mark member => ?_)
    rw [← rearranges.mem_nullnessMarks, none] at member
    cases member

end Rearranges

/-! ## Other gaps in front of the items -/

def regap (gap : String) (lexeme : Lexeme) : Lexeme := { lexeme with gap }

def regapFirst (gap : String) : List Lexeme → List Lexeme
  | [] => []
  | first :: rest => regap gap first :: rest

theorem spells_regapFirst {lexemes' : List Lexeme}
    (spells : Spells (loosen (lexemes.map Lexeme.word)) lexemes') :
    ∃ gap, Spells ((regapFirst gap lexemes).map Lexeme.word) lexemes' := by
  cases lexemes with
  | nil => exact ⟨"", spells⟩
  | cons first rest =>
      cases spells with
      | @cons _ other _ _ same later =>
          exact ⟨other.gap, .cons ⟨same.1, same.2.1, by simp [Lexeme.word, regap]⟩ later⟩

def FrontItem.regap (gap : String) : FrontItem → FrontItem
  | .annotated use free => .annotated { use with sign := Signature.regap gap use.sign } free
  | .modifier use => .modifier { use with lexeme := Signature.regap gap use.lexeme }

theorem FrontItem.lexemes_regap (gap : String) (item : FrontItem) :
    (item.regap gap).lexemes = regapFirst gap item.lexemes := by
  cases item <;> rfl

theorem FrontItem.apply_regap (gap : String) (item : FrontItem) (modifiers : Modifiers) :
    (item.regap gap).apply modifiers = item.apply modifiers := by
  cases item <;> rfl

theorem FrontItem.nullness?_regap (gap : String) (item : FrontItem) :
    (item.regap gap).nullness? = item.nullness? := by
  cases item <;> rfl

abbrev Regapped (front front' : List FrontItem) : Prop :=
  List.Forall₂ (fun item item' => ∃ gap, item' = FrontItem.regap gap item) front front'

/-- The words of a front, with any gaps in front of the items. -/
def looseFront (front : List FrontItem) : List Word :=
  front.flatMap fun item => loosen (item.lexemes.map Lexeme.word)

theorem regapped_of_spells {lexemes' : List Lexeme} (spells : Spells (looseFront front) lexemes') :
    ∃ front', Regapped front front' ∧
      Spells ((frontLexemes front').map Lexeme.word) lexemes' := by
  induction front generalizing lexemes' with
  | nil => exact ⟨[], .nil, spells⟩
  | cons item front ih =>
      obtain ⟨own, later, rfl, spellsOwn, spellsLater⟩ := Spells.split spells
      obtain ⟨gap, spellsOwn⟩ := spells_regapFirst spellsOwn
      obtain ⟨front', regapped, spellsLater⟩ := ih spellsLater
      refine ⟨item.regap gap :: front', .cons ⟨gap, rfl⟩ regapped, ?_⟩
      rw [frontLexemes, List.flatMap_cons, List.map_append, item.lexemes_regap]
      exact Spells.append spellsOwn spellsLater

theorem foldl_apply_regapped {front' : List FrontItem} (regapped : Regapped front front')
    (modifiers : Modifiers) :
    front'.foldl FrontItem.apply modifiers = front.foldl FrontItem.apply modifiers := by
  induction regapped generalizing modifiers with
  | nil => rfl
  | cons same _ ih =>
      obtain ⟨gap, rfl⟩ := same
      rw [List.foldl_cons, List.foldl_cons, ih, FrontItem.apply_regap]

theorem nullnessMarks_regapped {front' : List FrontItem} (regapped : Regapped front front') :
    nullnessMarks front' = nullnessMarks front := by
  induction regapped with
  | nil => rfl
  | cons same _ ih =>
      obtain ⟨gap, rfl⟩ := same
      simp only [nullnessMarks, List.filterMap_cons, FrontItem.nullness?_regap] at ih ⊢
      rw [ih]

end ApiCompat.Signature
