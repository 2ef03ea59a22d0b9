import ApiCompat.Proofs.Token.Source
import ApiCompat.Signature.Reader

/-!
# What readers take

`Takes mode good reader front back post` says what a reader does on lexemes
that spell the words `front` and then `back`: it takes the front, leaves the
back, and returns a value with the property `post`.  It may fail only if `good`
does not hold.
-/

set_option autoImplicit false

namespace ApiCompat

theorem Spells.append {first second : List Word} {taken rest : List Lexeme}
    (front : Spells first taken) (back : Spells second rest) :
    Spells (first ++ second) (taken ++ rest) :=
  List.rel_append front back

theorem Spells.split {first second : List Word} {lexemes : List Lexeme}
    (spells : Spells (first ++ second) lexemes) :
    ∃ taken rest, lexemes = taken ++ rest ∧ Spells first taken ∧ Spells second rest := by
  induction first generalizing lexemes with
  | nil => exact ⟨[], lexemes, rfl, .nil, spells⟩
  | cons word first ih =>
      cases spells with
      | cons same spells =>
          obtain ⟨taken, rest, rfl, front, back⟩ := ih spells
          exact ⟨_ :: taken, rest, rfl, .cons same front, back⟩

theorem loosen_kind_ne {kind : TokenKind} {taken : List Lexeme}
    (plain : ∀ lexeme ∈ taken, lexeme.kind ≠ kind) :
    ∀ word ∈ loosen (taken.map Lexeme.word), word.kind ≠ kind := by
  cases taken with
  | nil =>
      intro word member
      cases member
  | cons first rest =>
      intro word member
      rcases List.mem_cons.mp member with rfl | member
      · exact plain first List.mem_cons_self
      · obtain ⟨lexeme, stored, rfl⟩ := List.mem_map.mp member
        exact plain lexeme (List.mem_cons_of_mem _ stored)

theorem Spells.head_kind {words : List Word} {taken rest behind : List Lexeme} {next : Lexeme}
    (spells : Spells words taken) (shape : taken ++ rest = next :: behind) :
    ∀ word ∈ words.head?, word.kind = next.kind := by
  intro word member
  cases spells with
  | nil => cases member
  | cons matched _ =>
      obtain rfl := Option.some.inj member
      obtain rfl := (List.cons.inj shape).1
      exact matched.1.symm

theorem Spells.kind_ne {kind : TokenKind} {words : List Word} {lexemes : List Lexeme}
    (spells : Spells words lexemes) (plain : ∀ word ∈ words, word.kind ≠ kind) :
    ∀ lexeme ∈ lexemes, lexeme.kind ≠ kind := by
  induction spells with
  | nil =>
      intro lexeme member
      cases member
  | cons matched _ ih =>
      intro lexeme member
      rcases List.mem_cons.mp member with rfl | member
      · rw [matched.1]
        exact plain _ List.mem_cons_self
      · exact ih (fun word later => plain word (List.mem_cons_of_mem _ later)) lexeme member

namespace Signature

open Reader

variable {α β : Type} {mode : NullMode} {good : Prop} {front back later : List Word}

/-- On the words `front` before `back` the reader takes just `front`, or fails if not `good`. -/
def Takes (mode : NullMode) (good : Prop) (reader : Reader α) (front back : List Word)
    (post : α → Prop) : Prop :=
  ∀ context taken rest, context.nullMode = mode → Spells front taken → Spells back rest →
    (∃ value, reader context (taken ++ rest) = .ok (value, rest) ∧ post value) ∨
      (¬good ∧ ∃ fault, reader context (taken ++ rest) = .error fault)

def NotNext (kind : TokenKind) (words : List Word) : Prop :=
  ∀ word ∈ words.head?, word.kind ≠ kind

def NotNextWord (text : String) (words : List Word) : Prop :=
  ∀ word ∈ words.head?, ¬(word.kind = .identifier ∧ word.text = text)

@[simp] theorem notNext_cons (kind : TokenKind) (word : Word) (words : List Word) :
    NotNext kind (word :: words) ↔ word.kind ≠ kind := by
  simp [NotNext]

theorem notNext_of_ne {kind : TokenKind} {word : Word} {words : List Word}
    (other : word.kind ≠ kind) : NotNext kind (word :: words) :=
  (notNext_cons kind word words).mpr other

@[simp] theorem notNextWord_cons (text : String) (word : Word) (words : List Word) :
    NotNextWord text (word :: words) ↔ ¬(word.kind = .identifier ∧ word.text = text) := by
  simp [NotNextWord]

theorem notNext_nil (kind : TokenKind) : NotNext kind [] := by
  intro word member
  cases member

theorem head_kind_ne {kind : TokenKind} {rest : List Lexeme} (spells : Spells back rest)
    (stop : NotNext kind back) : ∀ next ∈ rest.head?, next.kind ≠ kind := by
  intro next member
  cases spells with
  | nil => cases member
  | cons matched _ =>
      obtain rfl := Option.some.inj member
      rw [matched.1]
      exact stop _ rfl

/-! ## Composition -/

theorem takes_pure {value : α} {post : α → Prop} (holds : post value) :
    Takes mode good (pure value) [] back post := by
  intro context taken rest _ spells _
  cases spells
  exact .inl ⟨value, rfl, holds⟩

theorem bind_ok {reader : Reader α} {next : α → Reader β} {context : Context}
    {lexemes rest : List Lexeme} {value : α} (read : reader context lexemes = .ok (value, rest)) :
    (reader >>= next) context lexemes = next value context rest := by
  show andThen reader next context lexemes = _
  simp only [andThen, read]

theorem bind_error {reader : Reader α} {next : α → Reader β} {context : Context}
    {lexemes : List Lexeme} {fault : Fault} (failed : reader context lexemes = .error fault) :
    (reader >>= next) context lexemes = .error fault := by
  show andThen reader next context lexemes = _
  simp only [andThen, failed]

theorem bind_assoc {γ : Type} (reader : Reader α) (next : α → Reader β) (last : β → Reader γ) :
    ((reader >>= next) >>= last) = reader >>= fun value => next value >>= last := by
  funext context lexemes
  cases read : reader context lexemes with
  | error fault => rw [bind_error read, bind_error (bind_error read)]
  | ok pair =>
      obtain ⟨value, rest⟩ := pair
      rw [bind_ok read]
      cases more : next value context rest with
      | error fault => rw [bind_error more, bind_error ((bind_ok read).trans more)]
      | ok pair =>
          obtain ⟨value', rest'⟩ := pair
          rw [bind_ok more, bind_ok ((bind_ok read).trans more)]

theorem Takes.bind {reader : Reader α} {next : α → Reader β} {middle : α → Prop} {post : β → Prop}
    (first : Takes mode good reader front (later ++ back) middle)
    (second : ∀ value, middle value → Takes mode good (next value) later back post) :
    Takes mode good (reader >>= next) (front ++ later) back post := by
  intro context taken rest inMode spells behind
  obtain ⟨taken₁, taken₂, rfl, spells₁, spells₂⟩ := spells.split
  rw [List.append_assoc]
  rcases first context taken₁ (taken₂ ++ rest) inMode spells₁ (spells₂.append behind) with
    ⟨value, read, holds⟩ | ⟨bad, fault, failed⟩
  · rw [bind_ok read]
    exact second value holds context taken₂ rest inMode spells₂ behind
  · exact .inr ⟨bad, fault, bind_error failed⟩

/-- A reader that takes nothing, and then the next one. -/
theorem Takes.peek {reader : Reader α} {next : α → Reader β} {middle : α → Prop} {post : β → Prop}
    (first : Takes mode good reader [] (front ++ back) middle)
    (second : ∀ value, middle value → Takes mode good (next value) front back post) :
    Takes mode good (reader >>= next) front back post :=
  first.bind second

theorem Takes.bind_word {reader : Reader α} {next : α → Reader β} {word : Word} {middle : α → Prop}
    {post : β → Prop} (first : Takes mode good reader [word] (later ++ back) middle)
    (second : ∀ value, middle value → Takes mode good (next value) later back post) :
    Takes mode good (reader >>= next) (word :: later) back post :=
  first.bind second

/-- A reader, and then a result from what it read. -/
theorem Takes.last {reader : Reader α} {next : α → Reader β} {middle : α → Prop} {post : β → Prop}
    (first : Takes mode good reader front back middle)
    (second : ∀ value, middle value → Takes mode good (next value) [] back post) :
    Takes mode good (reader >>= next) front back post := by
  have whole : Takes mode good (reader >>= next) (front ++ []) back post :=
    Takes.bind first second
  rwa [List.append_nil] at whole

theorem Takes.mono {reader : Reader α} {post post' : α → Prop}
    (takes : Takes mode good reader front back post) (weaker : ∀ value, post value → post' value) :
    Takes mode good reader front back post' := by
  intro context taken rest inMode spells behind
  rcases takes context taken rest inMode spells behind with ⟨value, read, holds⟩ | failed
  · exact .inl ⟨value, read, weaker value holds⟩
  · exact .inr failed

theorem Takes.weaken {good' : Prop} {reader : Reader α} {post : α → Prop}
    (takes : Takes mode good reader front back post) (stronger : good' → good) :
    Takes mode good' reader front back post := by
  intro context taken rest inMode spells behind
  rcases takes context taken rest inMode spells behind with read | ⟨bad, fault, failed⟩
  · exact .inl read
  · exact .inr ⟨fun holds => bad (stronger holds), fault, failed⟩

/-- On lexemes that spell the words the reader fails. -/
abbrev Fails (mode : NullMode) (reader : Reader α) (words : List Word) : Prop :=
  Takes mode False reader [] words fun _ => False

theorem Fails.takes {reader : Reader α} {post : α → Prop}
    (fails : Fails mode reader (front ++ back)) (bad : ¬good) :
    Takes mode good reader front back post := by
  intro context taken rest inMode spells behind
  rcases fails context [] (taken ++ rest) inMode .nil (Spells.append spells behind) with
    ⟨_, _, impossible⟩ | ⟨_, fault, failed⟩
  · exact absurd impossible id
  · exact .inr ⟨bad, fault, failed⟩

theorem Fails.bind {reader : Reader α} {next : α → Reader β} {words : List Word}
    (fails : Fails mode reader words) : Fails mode (reader >>= next) words :=
  Takes.peek fails fun _ impossible => absurd impossible id

/-- A reader that fails on what another one leaves. -/
theorem Fails.after {reader : Reader α} {next : α → Reader β} {middle : α → Prop}
    (first : Takes mode False reader front back middle)
    (second : ∀ value, middle value → Fails mode (next value) back) :
    Fails mode (reader >>= next) (front ++ back) := by
  intro context taken rest inMode nothing spells
  cases nothing
  obtain ⟨own, behind, rfl, spellsOwn, spellsBehind⟩ := Spells.split spells
  rcases first context own behind inMode spellsOwn spellsBehind with
    ⟨value, read, holds⟩ | ⟨_, fault, failed⟩
  · rcases second value holds context [] behind inMode .nil spellsBehind with
      ⟨_, _, impossible⟩ | ⟨_, fault, failed⟩
    · exact absurd impossible id
    · exact .inr ⟨id, fault, (bind_ok read).trans failed⟩
  · exact .inr ⟨id, fault, bind_error failed⟩

theorem Fails.after_word {reader : Reader α} {next : α → Reader β} {word : Word}
    {middle : α → Prop} (first : Takes mode False reader [word] back middle)
    (second : ∀ value, middle value → Fails mode (next value) back) :
    Fails mode (reader >>= next) (word :: back) :=
  Fails.after first second

/-- What a reader does where it may fail is what it does when it succeeds. -/
theorem takes_of_ok {reader : Reader α} {post : α → Prop}
    (outcome : ∀ context taken rest value behind, Spells front taken → Spells back rest →
      reader context (taken ++ rest) = .ok (value, behind) → behind = rest ∧ post value) :
    Takes mode False reader front back post := by
  intro context taken rest _ spells behind
  cases read : reader context (taken ++ rest) with
  | error fault => exact .inr ⟨id, fault, rfl⟩
  | ok pair =>
      obtain ⟨value, left⟩ := pair
      obtain ⟨rfl, holds⟩ := outcome context taken rest value left spells behind read
      exact .inl ⟨value, rfl, holds⟩

theorem fails_unexpected {expected : Expected} {words : List Word} :
    Fails mode (unexpected expected : Reader α) words := by
  intro context taken rest _ spells _
  cases spells
  cases rest with
  | nil => exact .inr ⟨id, _, rfl⟩
  | cons next rest => exact .inr ⟨id, _, rfl⟩

/-- A reader that may not fail does not. -/
theorem Takes.run {reader : Reader α} {post : α → Prop} {context : Context}
    {taken rest : List Lexeme} (takes : Takes mode True reader front back post)
    (inMode : context.nullMode = mode) (spells : Spells front taken) (behind : Spells back rest) :
    ∃ value, reader context (taken ++ rest) = .ok (value, rest) ∧ post value := by
  rcases takes context taken rest inMode spells behind with read | ⟨bad, _⟩
  · exact read
  · exact absurd trivial bad

/-! ## Looking ahead -/

theorem remaining_apply (context : Context) (lexemes : List Lexeme) :
    remaining context lexemes = .ok (lexemes, lexemes) := rfl

theorem continueWith_apply (context : Context) (lexemes rest : List Lexeme) :
    continueWith rest context lexemes = .ok ((), rest) := rfl

theorem takes_remaining :
    Takes mode good remaining [] back fun lexemes => Spells back lexemes := by
  intro context taken rest _ spells behind
  cases spells
  exact .inl ⟨rest, rfl, behind⟩

theorem takes_currentLine : Takes mode good currentLine [] back fun _ => True := by
  intro context taken rest _ spells _
  cases spells
  cases rest with
  | nil => exact .inl ⟨_, rfl, trivial⟩
  | cons next rest => exact .inl ⟨_, rfl, trivial⟩

theorem takes_context :
    Takes mode good context [] back fun context => context.nullMode = mode := by
  intro context taken rest inMode spells _
  cases spells
  exact .inl ⟨context, rfl, inMode⟩

theorem takes_isNext {kind : TokenKind} {word : Word} (same : word.kind = kind) :
    Takes mode good (isNext kind) [] (word :: back) (· = true) := by
  refine takes_remaining.last fun lexemes spells => takes_pure ?_
  cases spells with
  | cons matched _ => simp [matched.1, same]

theorem takes_isNext_not {kind : TokenKind} (other : NotNext kind back) :
    Takes mode good (isNext kind) [] back (· = false) := by
  refine takes_remaining.last fun lexemes spells => takes_pure ?_
  cases spells with
  | nil => rfl
  | cons matched _ =>
      have different := other _ rfl
      simp [matched.1, different]

/-! ## Taking one lexeme -/

theorem takes_takeIf {test : Lexeme → Bool} {word : Word}
    (hit : ∀ lexeme, word.Matches lexeme → test lexeme = true) :
    Takes mode good (takeIf? test) [word] back
      fun found => ∃ lexeme, found = some lexeme ∧ word.Matches lexeme := by
  intro context taken rest _ spells _
  cases spells with
  | @cons _ lexeme _ _ matched spells =>
      cases spells
      refine .inl ⟨some lexeme, ?_, lexeme, rfl, matched⟩
      simp [takeIf?, hit lexeme matched]

theorem takes_takeIf_not {test : Lexeme → Bool}
    (missed : ∀ word ∈ back.head?, ∀ lexeme, word.Matches lexeme → test lexeme = false) :
    Takes mode good (takeIf? test) [] back (· = none) := by
  intro context taken rest _ spells behind
  cases spells
  cases behind with
  | nil => exact .inl ⟨none, rfl, rfl⟩
  | @cons word lexeme _ _ matched _ =>
      refine .inl ⟨none, ?_, rfl⟩
      have fails := missed word rfl lexeme matched
      simp [takeIf?, fails]

theorem takes_skip {kind : TokenKind} {word : Word} (same : word.kind = kind) :
    Takes mode good (skip? kind) [word] back (· = true) := by
  refine (takes_takeIf ?_).last fun value found => ?_
  · intro lexeme matched
    simp [matched.1, same]
  · obtain ⟨lexeme, rfl, _⟩ := found
    exact takes_pure rfl

theorem takes_skip_not {kind : TokenKind} (other : NotNext kind back) :
    Takes mode good (skip? kind) [] back (· = false) := by
  refine (takes_takeIf_not ?_).last fun value found => ?_
  · intro word next lexeme matched
    have different := other word next
    simp [matched.1, different]
  · subst found
    exact takes_pure rfl

theorem takes_skipWord (text : String) :
    Takes mode good (skipWord? text) [.ident text] back (· = true) := by
  refine (takes_takeIf ?_).last fun value found => ?_
  · intro lexeme matched
    simp [Lexeme.isWord, matched.1, matched.2.1, Word.ident]
  · obtain ⟨lexeme, rfl, _⟩ := found
    exact takes_pure rfl

theorem takes_skipWord_not {text : String} (other : NotNextWord text back) :
    Takes mode good (skipWord? text) [] back (· = false) := by
  refine (takes_takeIf_not ?_).last fun value found => ?_
  · intro word next lexeme matched
    have different := other word next
    simpa [Lexeme.isWord, matched.1, matched.2.1] using different
  · subst found
    exact takes_pure rfl

theorem takes_expectKind {kind : TokenKind} {expected : Expected} {word : Word}
    (same : word.kind = kind) :
    Takes mode good (expectKind kind expected) [word] back fun lexeme => word.Matches lexeme := by
  refine (takes_takeIf ?_).last fun value found => ?_
  · intro lexeme matched
    simp [matched.1, same]
  · obtain ⟨lexeme, rfl, matched⟩ := found
    exact takes_pure matched

theorem fails_expectKind {kind : TokenKind} {expected : Expected} (other : NotNext kind back) :
    Fails mode (expectKind kind expected) back := by
  refine Takes.peek (takes_takeIf_not ?_) fun found none => ?_
  · intro word next lexeme matched
    have different := other word next
    simp [matched.1, different]
  · subst none
    exact fails_unexpected

theorem takes_expect {kind : TokenKind} {word : Word} (same : word.kind = kind) :
    Takes mode good (expect kind) [word] back fun _ => True :=
  (takes_expectKind same).mono fun _ _ => trivial

theorem takes_identifier (expected : Expected) (text : String) :
    Takes mode good (identifier expected) [.ident text] back fun lexeme => lexeme.text = text :=
  (takes_expectKind rfl).mono fun _ matched => matched.2.1

/-! ## Lists and names -/

section Separated

variable {τ : Type} {item : Reader α} (separator : Word) (ends : List Word → Prop)

/-- Each of the `items` is read as what it means. -/
theorem takes_separatedRest {words : τ → List Word} (means : τ → α) (ending : ends back)
    (stop : NotNext separator.kind back) (separating : ∀ later, ends (separator :: later))
    (items : List τ)
    (takesItem : ∀ value ∈ items, ∀ later, ends later →
      Takes mode good item (words value) later (· = means value))
    (rounds : Nat) (enough : items.length ≤ rounds) :
    Takes mode good (separatedRest separator.kind item rounds)
      (items.flatMap fun value => separator :: words value) back (· = items.map means) := by
  induction items generalizing rounds with
  | nil =>
      cases rounds with
      | zero => exact takes_pure rfl
      | succ rounds =>
          refine (takes_skip_not stop).last fun value none => ?_
          subst none
          exact takes_pure rfl
  | cons value items ih =>
      cases rounds with
      | zero => simp at enough
      | succ rounds =>
          rw [List.flatMap_cons]
          refine (takes_skip rfl).bind_word fun taken found => ?_
          subst found
          have behind : ends ((items.flatMap fun value => separator :: words value) ++ back) := by
            cases items with
            | nil => exact ending
            | cons next items => exact separating _
          refine (takesItem value List.mem_cons_self _ behind).bind fun first same => ?_
          subst same
          have rest := ih (fun next member => takesItem next (List.mem_cons_of_mem _ member)) rounds
            (Nat.le_of_succ_le_succ enough)
          refine rest.last fun later same => ?_
          subst same
          exact takes_pure rfl

theorem length_le_flatMap (items : List τ) (words : τ → List Word) (separator : Word) :
    items.length ≤ (items.flatMap fun value => separator :: words value).length := by
  induction items with
  | nil => exact Nat.le_refl 0
  | cons value items ih =>
      simp only [List.flatMap_cons, List.length_append, List.length_cons]
      omega

theorem takes_separated_map {words : τ → List Word} (means : τ → α) (ending : ends back)
    (stop : NotNext separator.kind back) (separating : ∀ later, ends (separator :: later))
    {items : List τ} (filled : items ≠ [])
    (takesItem : ∀ value ∈ items, ∀ later, ends later →
      Takes mode good item (words value) later (· = means value)) :
    Takes mode good (separated separator.kind item) (joinWords [separator] (items.map words)) back
      (· = items.map means) := by
  cases items with
  | nil => exact absurd rfl filled
  | cons value items =>
      have shape : joinWords [separator] ((value :: items).map words) =
          words value ++ items.flatMap fun value => separator :: words value := by
        simp [joinWords, List.flatMap_map]
      rw [shape]
      have behind : ends ((items.flatMap fun value => separator :: words value) ++ back) := by
        cases items with
        | nil => exact ending
        | cons next items => exact separating _
      refine (takesItem value List.mem_cons_self _ behind).bind fun first same => ?_
      subst same
      refine takes_remaining.peek fun lexemes spells => ?_
      have enough : items.length ≤ lexemes.length := by
        rw [← spells.length_eq, List.length_append]
        have bound := length_le_flatMap items words separator
        omega
      refine (takes_separatedRest separator ends means ending stop separating items
        (fun next member => takesItem next (List.mem_cons_of_mem _ member)) lexemes.length
        enough).last fun later same => ?_
      subst same
      exact takes_pure rfl

def enclosedWords : List (List Word) → List Word
  | [] => []
  | first :: rest => .less :: (joinWords [.comma] (first :: rest) ++ [.greater])

def enclosed (item : Reader α) : Reader (List α) := do
  if ← skip? .less then
    let items ← separated .comma item
    let _ ← expect .greater
    return items
  else return []

theorem notNext_enclosedWords {kind : TokenKind} (items : List (List Word)) (other : kind ≠ .less)
    (stop : NotNext kind back) : NotNext kind (enclosedWords items ++ back) := by
  cases items with
  | nil => exact stop
  | cons first rest => exact notNext_of_ne other.symm

theorem takes_enclosed_none (stop : NotNext .less back) :
    Takes mode good (enclosed item) [] back (· = []) := by
  refine Takes.peek (takes_skip_not stop) fun found none => ?_
  subst none
  exact takes_pure rfl

theorem takes_enclosed {words : τ → List Word} (means : τ → α)
    (stop : NotNext .less back)
    (closing : ∀ word later, word = .comma ∨ word = .greater → ends (word :: later)) {items : List τ}
    (takesItem : ∀ value ∈ items, ∀ later, ends later →
      Takes mode good item (words value) later (· = means value)) :
    Takes mode good (enclosed item) (enclosedWords (items.map words)) back
      (· = items.map means) := by
  cases items with
  | nil => exact takes_enclosed_none stop
  | cons value items =>
      refine (takes_skip rfl).bind_word fun found opened => ?_
      subst opened
      refine (takes_separated_map .comma ends means (closing .greater _ (.inr rfl)) ?_
        (fun later => closing .comma later (.inl rfl)) (List.cons_ne_nil value items)
        takesItem).bind fun found same => ?_
      · exact notNext_of_ne (by decide)
      · subst same
        refine (takes_expect rfl).last fun _ _ => ?_
        exact takes_pure rfl

end Separated

theorem splitDotted_spells {parts : List String} {taken rest : List Lexeme}
    (spells : Spells (parts.flatMap fun part => [.dot, .ident part]) taken)
    (stop : ∀ next ∈ rest.head?, next.kind ≠ .dot) :
    ∃ words, splitDotted (taken ++ rest) = (words, rest) ∧ words.map Lexeme.text = parts := by
  induction parts generalizing taken with
  | nil =>
      cases spells
      refine ⟨[], ?_, rfl⟩
      cases rest with
      | nil => rfl
      | cons next rest =>
          have other := stop next rfl
          cases rest with
          | nil => rfl
          | cons word rest => simp [splitDotted, other]
  | cons part parts ih =>
      rw [List.flatMap_cons] at spells
      cases spells with
      | @cons _ dot _ _ isDot spells =>
          cases spells with
          | @cons _ word _ _ isWord spells =>
              obtain ⟨words, cut, texts⟩ := ih spells
              refine ⟨word :: words, ?_, ?_⟩
              · have dotKind : dot.kind = .dot := isDot.1
                have wordKind : word.kind = .identifier := isWord.1
                simp [splitDotted, dotKind, wordKind, cut]
              · have wordText : word.text = part := isWord.2.1
                simp [wordText, texts]

theorem takes_nameParts (expected : Expected) (first : String) (parts : List String)
    (stop : NotNext .dot back) :
    Takes mode good (qualifiedName expected)
      (.ident first :: parts.flatMap fun part => [.dot, .ident part]) back
      (· = joinWith "." (first :: parts)) := by
  refine (takes_identifier expected first).bind_word fun lexeme text => ?_
  intro context taken rest _ spells behind
  obtain ⟨words, cut, texts⟩ := splitDotted_spells spells (head_kind_ne behind stop)
  refine .inl ⟨_, ?_, rfl⟩
  rw [bind_ok (remaining_apply context (taken ++ rest)), cut,
    bind_ok (continueWith_apply context _ rest), text, texts]
  rfl

theorem takes_qualifiedName (expected : Expected) (name : String) (stop : NotNext .dot back) :
    Takes mode good (qualifiedName expected) (nameWords name) back (· = name) := by
  obtain ⟨later, shape⟩ := nameParts_shape name
  have words : nameWords name =
      .ident (firstPart name) :: later.flatMap fun part => [.dot, .ident part] := by
    simp [nameWords, shape, joinWords, List.flatMap_map]
  have whole : joinWith "." (firstPart name :: later) = name := by
    rw [← shape, joinWith_nameParts]
  rw [words]
  have takes : Takes mode good (qualifiedName expected) _ back _ :=
    takes_nameParts expected (firstPart name) later stop
  rwa [whole] at takes

end Signature

end ApiCompat
