import ApiCompat.Proofs.Cursor.Walk
import ApiCompat.Proofs.Signature.Local

/-!
# Walks and readers

A walk tracks a reader when it does, from any place of the cursor, what the
reader does on the lexemes from there on: it finds the same value and leaves
the cursor before the lexemes that the reader leaves, or fails with the same
fault.  On the way nothing is wrong with any point of its run (`TracksTo`).
-/

set_option autoImplicit false

namespace ApiCompat.Signature

open Reader
open Cursor (Source Walk Run Point Act Halt Part)

variable {α β γ δ : Type} {source : Source} {cursor bound : Nat}

/-! ## Tracking -/

/-- A run begun at the cursor and a reader of the lexemes behind it end alike. -/
def Agrees (source : Source) (cursor : Nat) (post : α → β → Nat → Prop)
    (outcome : Except Halt (α × Nat)) (read : Except Fault (β × List Lexeme)) : Prop :=
  (∃ value found next, outcome = .ok (value, next) ∧ read = .ok (found, source.behind next) ∧
    cursor ≤ next ∧ next ≤ source.lexemes.length ∧ post value found next) ∨
  ∃ fault, outcome = .error (.malformed fault) ∧ read = .error fault

/-- From the cursor the walk does what the reader does, and every point of its run is safe; the
values that they find, and where the cursor is then, are as `post` says. -/
def TracksTo (source : Source) (cursor : Nat) (walk : Walk α) (reader : Reader β)
    (post : α → β → Nat → Prop) : Prop :=
  cursor ≤ source.lexemes.length →
    (∀ point ∈ (walk source cursor).points, point.Safe source) ∧
      Agrees source cursor post (walk source cursor).outcome
        (reader source.context (source.behind cursor))

abbrev SameValue (value found : α) (_ : Nat) : Prop := value = found

abbrev TracksAt (source : Source) (cursor : Nat) (walk : Walk α) (reader : Reader α) : Prop :=
  TracksTo source cursor walk reader SameValue

def Tracks (source : Source) (bound : Nat) (walk : Walk α) (reader : Reader α) : Prop :=
  ∀ cursor, bound ≤ cursor → TracksAt source cursor walk reader

/-! ## Composition -/

namespace Cursor

theorem bind_ok {walk : Walk α} {next : α → Walk β} {value : α} {cursor' : Nat}
    (ran : (walk source cursor).outcome = .ok (value, cursor')) :
    (walk >>= next) source cursor =
      ⟨(next value source cursor').outcome,
        (walk source cursor).points ++ (next value source cursor').points⟩ := by
  show andThen walk next source cursor = _
  simp only [andThen, ran]

theorem bind_error {walk : Walk α} {next : α → Walk β} {reason : Halt}
    (ran : (walk source cursor).outcome = .error reason) :
    (walk >>= next) source cursor = ⟨.error reason, (walk source cursor).points⟩ := by
  show andThen walk next source cursor = _
  simp only [andThen, ran]

/-- What is seen without moving is seen where the next walk begins. -/
theorem look_bind (see : Source → Nat → α) (next : α → Walk β) (source : Source) (cursor : Nat) :
    (look see >>= next) source cursor = next (see source cursor) source cursor := rfl

end Cursor

section Composition

variable {walk : Walk α} {reader : Reader β} {nextWalk : α → Walk γ} {nextReader : β → Reader δ}
  {middle : α → β → Nat → Prop} {post : γ → δ → Nat → Prop}

theorem TracksTo.bind (first : TracksTo source cursor walk reader middle)
    (second : ∀ value found next, middle value found next → cursor ≤ next →
      reader source.context (source.behind cursor) = .ok (found, source.behind next) →
      TracksTo source next (nextWalk value) (nextReader found) post) :
    TracksTo source cursor (walk >>= nextWalk) (reader >>= nextReader) post := by
  intro inside
  obtain ⟨safe, ⟨value, found, next, ran, read, onward, within, holds⟩ | ⟨fault, ran, read⟩⟩ :=
    first inside
  · obtain ⟨safe', agrees⟩ := second value found next holds onward read within
    rw [Cursor.bind_ok ran, bind_ok read]
    refine ⟨List.forall_mem_append.mpr ⟨safe, safe'⟩, agrees.imp_left ?_⟩
    rintro ⟨value', found', next', ran', read', onward', rest⟩
    exact ⟨value', found', next', ran', read', onward.trans onward', rest⟩
  · rw [Cursor.bind_error ran, bind_error read]
    exact ⟨safe, .inr ⟨fault, rfl, rfl⟩⟩

/-- A walk that looks around tracks what it does by what it sees. -/
theorem TracksTo.look {see : Source → Nat → α} {reader : Reader δ}
    (tracks : TracksTo source cursor (nextWalk (see source cursor)) reader post) :
    TracksTo source cursor (Cursor.look see >>= nextWalk) reader post := tracks

/-- A reader that looks ahead sees the lexemes behind the cursor. -/
theorem TracksTo.remaining {walk : Walk γ} {nextReader : List Lexeme → Reader δ}
    (tracks : TracksTo source cursor walk (nextReader (source.behind cursor)) post) :
    TracksTo source cursor walk (remaining >>= nextReader) post := tracks

/-- A walk whose run is known comes to where the next one begins. -/
theorem TracksTo.ran {walk : Walk α} {value : α} {next : Nat} {points : List Point}
    {reader left : Reader δ} (run : walk source cursor = ⟨.ok (value, next), points⟩)
    (safe : ∀ point ∈ points, point.Safe source) (onward : cursor ≤ next)
    (within : next ≤ source.lexemes.length)
    (same : reader source.context (source.behind cursor) =
      left source.context (source.behind next))
    (tracks : TracksTo source next (nextWalk value) left post) :
    TracksTo source cursor (walk >>= nextWalk) reader post := by
  intro _
  obtain ⟨safe', agrees⟩ := tracks within
  have outcome : (walk source cursor).outcome = .ok (value, next) := by rw [run]
  rw [Cursor.bind_ok outcome, run, same]
  refine ⟨List.forall_mem_append.mpr ⟨safe, safe'⟩, agrees.imp_left ?_⟩
  rintro ⟨value', found, next', ran, read, onward', rest⟩
  exact ⟨value', found, next', ran, read, onward.trans onward', rest⟩

/-- So does a walk that does a single thing, with which nothing is wrong. -/
theorem TracksTo.acts {walk : Walk α} {value : α} {next : Nat} {act : Act}
    {reader left : Reader δ} (run : walk source cursor = ⟨.ok (value, next), [⟨next, act⟩]⟩)
    (safe : act.Safe source next) (onward : cursor ≤ next) (within : next ≤ source.lexemes.length)
    (same : reader source.context (source.behind cursor) =
      left source.context (source.behind next))
    (tracks : TracksTo source next (nextWalk value) left post) :
    TracksTo source cursor (walk >>= nextWalk) reader post :=
  .ran run (List.forall_mem_singleton.mpr ⟨within, safe⟩) onward within same tracks

/-- A walk that moves on tracks what the reader does on the lexemes that are left. -/
theorem TracksTo.move {steps : Nat} {nextWalk : Unit → Walk γ} {reader left : Reader δ}
    (within : cursor + steps ≤ source.lexemes.length)
    (same : reader source.context (source.behind cursor) =
      left source.context (source.behind (cursor + steps)))
    (tracks : TracksTo source (cursor + steps) (nextWalk ()) left post) :
    TracksTo source cursor (Cursor.move steps >>= nextWalk) reader post :=
  .acts rfl trivial (Nat.le_add_right _ _) within same tracks

theorem TracksTo.ite {condition : Prop} [Decidable condition] {yes no : Walk γ}
    {yes' no' : Reader δ} (first : TracksTo source cursor yes yes' post)
    (second : TracksTo source cursor no no' post) :
    TracksTo source cursor (if condition then yes else no) (if condition then yes' else no')
      post := by
  split
  · exact first
  · exact second

/-- Only what the reader does on the lexemes behind the cursor matters. -/
theorem TracksTo.congr {walk : Walk γ} {reader reader' : Reader δ}
    (tracks : TracksTo source cursor walk reader post)
    (same : reader source.context (source.behind cursor) =
      reader' source.context (source.behind cursor)) :
    TracksTo source cursor walk reader' post := by
  intro inside
  rw [← same]
  exact tracks inside

end Composition

section Same

variable {walk : Walk α} {reader : Reader α} {nextWalk : α → Walk γ} {nextReader : α → Reader δ}
  {post : γ → δ → Nat → Prop}

theorem TracksTo.andThen (first : TracksAt source cursor walk reader)
    (second : ∀ value next, cursor ≤ next →
      TracksTo source next (nextWalk value) (nextReader value) post) :
    TracksTo source cursor (walk >>= nextWalk) (reader >>= nextReader) post := by
  refine first.bind ?_
  rintro value _ next rfl onward _
  exact second value next onward

/-- Behind a reader that takes a lexeme the cursor has moved on. -/
theorem TracksTo.advance (first : TracksAt source cursor walk reader) (advances : Advances reader)
    (second : ∀ value next, cursor < next →
      TracksTo source next (nextWalk value) (nextReader value) post) :
    TracksTo source cursor (walk >>= nextWalk) (reader >>= nextReader) post := by
  refine first.bind ?_
  rintro value _ next rfl _ read
  obtain ⟨head, piece, whole⟩ := advances _ _ _ _ read
  exact second value next (Source.lt_of_behind whole)

theorem Tracks.bind {nextReader : α → Reader γ} (first : Tracks source bound walk reader)
    (second : ∀ value, Tracks source bound (nextWalk value) (nextReader value)) :
    Tracks source bound (walk >>= nextWalk) (reader >>= nextReader) :=
  fun cursor behind => (first cursor behind).andThen fun value next onward =>
    second value next (behind.trans onward)

theorem Tracks.ite {condition : Prop} [Decidable condition] {yes no : Walk α} {yes' no' : Reader α}
    (first : Tracks source bound yes yes') (second : Tracks source bound no no') :
    Tracks source bound (if condition then yes else no) (if condition then yes' else no') :=
  fun cursor behind => (first cursor behind).ite (second cursor behind)

end Same

theorem tracksTo_pure {value : α} {found : β} {post : α → β → Nat → Prop}
    (holds : post value found cursor) : TracksTo source cursor (pure value) (pure found) post :=
  fun inside =>
    ⟨List.forall_mem_nil _, .inl ⟨value, found, cursor, rfl, rfl, le_rfl, inside, holds⟩⟩

theorem tracks_pure {value : α} : Tracks source bound (pure value) (pure value) :=
  fun _ _ => tracksTo_pure rfl

theorem tracksTo_failAt {line : Nat} {reason : Reason} {post : α → β → Nat → Prop} :
    TracksTo source cursor (Cursor.failAt line reason) (failAt line reason) post :=
  fun _ => ⟨List.forall_mem_nil _, .inr ⟨_, rfl, rfl⟩⟩

/-- What is blamed is what the cursor stands before. -/
theorem unexpected_behind (source : Source) (cursor : Nat) (expected : Expected) :
    (unexpected expected : Reader α) source.context (source.behind cursor) =
      .error {
        line := (source.lexemes[cursor]?.map Lexeme.line).getD (lastLine source.lexemes)
        reason := .unexpected expected
          (source.lexemes[cursor]?.map fun lexeme => (lexeme.kind, lexeme.text)) } := by
  rcases source.cases cursor with ⟨nothing, atEnd⟩ | ⟨next, found, _, whole⟩
  · rw [nothing, atEnd]
    rfl
  · rw [found, whole]
    rfl

theorem tracksTo_unexpected {expected : Expected} {post : α → β → Nat → Prop} :
    TracksTo source cursor (Cursor.unexpected expected) (unexpected expected) post :=
  fun _ => ⟨List.forall_mem_nil _, .inr ⟨_, rfl, unexpected_behind source cursor expected⟩⟩

/-! ## Single lexemes -/

theorem currentLine_behind (source : Source) (cursor : Nat) :
    currentLine source.context (source.behind cursor) =
      .ok ((source.lexemes[cursor]?.map Lexeme.line).getD (lastLine source.lexemes),
        source.behind cursor) := by
  rcases source.cases cursor with ⟨nothing, atEnd⟩ | ⟨next, found, _, whole⟩
  · rw [nothing, atEnd]
    rfl
  · rw [found, whole]
    rfl

theorem TracksTo.line {nextWalk : Nat → Walk α} {nextReader : Nat → Reader β}
    {post : α → β → Nat → Prop}
    (tracks : ∀ line, TracksTo source cursor (nextWalk line) (nextReader line) post) :
    TracksTo source cursor (Cursor.currentLine >>= nextWalk) (currentLine >>= nextReader) post :=
  TracksTo.congr (.look (tracks _)) (bind_ok (currentLine_behind source cursor)).symm

/-- A choice by the kind of the lexeme at the cursor. -/
theorem TracksTo.choose {kind : TokenKind} {yes no : Walk α} {yes' no' : Reader β}
    {post : α → β → Nat → Prop}
    (first : ∀ next, source.lexemes[cursor]? = some next → next.kind = kind →
      TracksTo source cursor yes yes' post)
    (second : (∀ next ∈ source.lexemes[cursor]?, next.kind ≠ kind) →
      TracksTo source cursor no no' post) :
    TracksTo source cursor (Cursor.isHere kind >>= fun found => if found = true then yes else no)
      (isNext kind >>= fun found => if found = true then yes' else no') post := by
  refine .look (TracksTo.remaining ?_)
  rw [source.head?_behind]
  rcases source.cases cursor with ⟨nothing, _⟩ | ⟨next, here, _, _⟩
  · rw [nothing]
    exact second (by simp [nothing])
  · rw [here]
    by_cases same : next.kind = kind
    · simpa [same] using first next here same
    · simpa [same] using second (by simpa [here] using same)

/-- A choice by whether the cursor is at the end. -/
theorem TracksTo.atEnd {yes no : Walk α} {yes' no' : Reader β} {post : α → β → Nat → Prop}
    (first : TracksTo source cursor yes yes' post)
    (second : TracksTo source cursor no no' post) :
    TracksTo source cursor (Cursor.here >>= fun next => if next.isNone = true then yes else no)
      (Reader.remaining >>= fun lexemes => if lexemes.isEmpty = true then yes' else no') post := by
  refine .look (.remaining ?_)
  rcases source.cases cursor with ⟨nothing, atEnd⟩ | ⟨next, here, _, whole⟩
  · rw [nothing, atEnd]
    exact first
  · rw [here, whole]
    exact second

theorem eatIf_run (test : Lexeme → Bool) (source : Source) (cursor : Nat) :
    Cursor.eatIf test source cursor =
      if source.lexemes[cursor]?.any test then ⟨.ok (true, cursor + 1), [⟨cursor + 1, .move⟩]⟩
      else ⟨.ok (false, cursor), []⟩ := by
  rw [Cursor.eatIf, Cursor.sees, Cursor.look_bind]
  split <;> rfl

theorem takeIf_behind (source : Source) (cursor : Nat) (test : Lexeme → Bool) :
    takeIf? test source.context (source.behind cursor) =
      if source.lexemes[cursor]?.any test then
        .ok (source.lexemes[cursor]?, source.behind (cursor + 1))
      else .ok (none, source.behind cursor) := by
  rcases source.cases cursor with ⟨nothing, atEnd⟩ | ⟨next, found, _, whole⟩
  · rw [nothing, atEnd]
    rfl
  · rw [found, whole]
    rfl

/-- Both move on over the same lexeme, or both stay where they are. -/
abbrev MovesOn (cursor : Nat) (value found : Bool) (next : Nat) : Prop :=
  value = found ∧ next = cursor + value.toNat

theorem tracksTo_eatIf (test : Lexeme → Bool) :
    TracksTo source cursor (Cursor.eatIf test)
      (takeIf? test >>= fun taken => pure taken.isSome) (MovesOn cursor) := by
  intro inside
  have took := takeIf_behind source cursor test
  rw [eatIf_run]
  rcases source.cases cursor with ⟨nothing, _⟩ | ⟨next, found, within, _⟩
  · rw [nothing] at took ⊢
    rw [bind_ok took]
    exact ⟨List.forall_mem_nil _, .inl ⟨_, _, _, rfl, rfl, le_rfl, inside, rfl, rfl⟩⟩
  · rw [found, Option.any_some] at took ⊢
    cases passes : test next with
    | false =>
        rw [passes] at took
        rw [bind_ok took]
        exact ⟨List.forall_mem_nil _, .inl ⟨_, _, _, rfl, rfl, le_rfl, inside, rfl, rfl⟩⟩
    | true =>
        rw [passes] at took
        rw [bind_ok took]
        exact ⟨List.forall_mem_singleton.mpr ⟨within, trivial⟩,
          .inl ⟨_, _, _, rfl, rfl, Nat.le_succ cursor, within, rfl, rfl⟩⟩

theorem tracksTo_eat (kind : TokenKind) (cursor : Nat) :
    TracksTo source cursor (Cursor.eat kind) (skip? kind) (MovesOn cursor) :=
  tracksTo_eatIf fun lexeme => lexeme.kind == kind

theorem tracksTo_eatWord (word : String) (cursor : Nat) :
    TracksTo source cursor (Cursor.eatWord word) (skipWord? word) (MovesOn cursor) :=
  tracksTo_eatIf fun lexeme => lexeme.isWord word

section Branch

variable {test : Walk Bool} {test' : Reader Bool}

/-- A choice by whether a lexeme was taken. -/
theorem TracksTo.branch {yes no : Walk α} {yes' no' : Reader β} {post : α → β → Nat → Prop}
    (first : TracksTo source cursor test test' (MovesOn cursor))
    (second : TracksTo source (cursor + 1) yes yes' post)
    (third : TracksTo source cursor no no' post) :
    TracksTo source cursor (test >>= fun found => if found = true then yes else no)
      (test' >>= fun found => if found = true then yes' else no') post := by
  refine first.bind ?_
  rintro value _ _ ⟨rfl, rfl⟩ _ _
  cases value with
  | true => exact second
  | false => exact third

theorem Tracks.branch {yes no : Walk α} {yes' no' : Reader α}
    (first : ∀ cursor, TracksTo source cursor test test' (MovesOn cursor))
    (second : Tracks source bound yes yes') (third : Tracks source bound no no') :
    Tracks source bound (test >>= fun found => if found = true then yes else no)
      (test' >>= fun found => if found = true then yes' else no') :=
  fun cursor behind =>
    (first cursor).branch (second _ (Nat.le_succ_of_le behind)) (third cursor behind)

end Branch

theorem tracks_eat {kind : TokenKind} : Tracks source bound (Cursor.eat kind) (skip? kind) := by
  intro cursor _ inside
  obtain ⟨safe, agrees⟩ := tracksTo_eat kind cursor inside
  refine ⟨safe, agrees.imp_left ?_⟩
  rintro ⟨value, found, next, ran, read, onward, within, same, _⟩
  exact ⟨value, found, next, ran, read, onward, within, same⟩

theorem tracks_expectKind {kind : TokenKind} {expected : Expected} :
    Tracks source bound (Cursor.expectKind kind expected) (expectKind kind expected) := by
  intro cursor _
  have took := takeIf_behind source cursor fun lexeme => lexeme.kind == kind
  refine .look ?_
  rcases source.cases cursor with ⟨nothing, _⟩ | ⟨next, found, within, whole⟩
  · rw [nothing] at took ⊢
    have read : expectKind kind expected source.context (source.behind cursor) = _ := bind_ok took
    exact tracksTo_unexpected.congr read.symm
  · rw [found] at took ⊢
    by_cases same : next.kind = kind
    · have read : expectKind kind expected source.context (source.behind cursor) =
          .ok (next, source.behind (cursor + 1)) := by
        rw [whole, expectKind_here same]
      have taken : TracksAt source cursor (Cursor.move 1 >>= fun _ => pure next)
          (expectKind kind expected) := .move within read (tracksTo_pure rfl)
      simpa only [if_pos same] using taken
    · rw [Option.any_some, if_neg (by simpa using same)] at took
      have read : expectKind kind expected source.context (source.behind cursor) = _ := bind_ok took
      have blamed : TracksAt source cursor (Cursor.unexpected expected)
          (expectKind kind expected) := tracksTo_unexpected.congr read.symm
      simpa only [if_neg same] using blamed

theorem tracks_expect {kind : TokenKind} : Tracks source bound (Cursor.expect kind) (expect kind) :=
  tracks_expectKind

theorem tracks_identifier {expected : Expected} :
    Tracks source bound (Cursor.identifier expected) (identifier expected) :=
  tracks_expectKind

/-! ## Parts -/

theorem part_ok {walk : Walk α} {value : α} {next : Nat} (which : Part)
    (ran : (walk source cursor).outcome = .ok (value, next)) :
    Cursor.part which walk source cursor =
      ⟨.ok (value, next), (walk source cursor).points ++ [⟨next, .finish which cursor⟩]⟩ := by
  rw [Cursor.part, Cursor.position, Cursor.look_bind, Cursor.bind_ok ran]
  rfl

theorem part_error {walk : Walk α} {reason : Halt} (which : Part)
    (ran : (walk source cursor).outcome = .error reason) :
    Cursor.part which walk source cursor = ⟨.error reason, (walk source cursor).points⟩ := by
  rw [Cursor.part, Cursor.position, Cursor.look_bind, Cursor.bind_error ran]

/-- A part that takes a lexeme ends behind the place where it began. -/
theorem TracksTo.part {walk : Walk α} {reader : Reader α} (which : Part)
    (tracks : TracksAt source cursor walk reader) (advances : Advances reader) :
    TracksAt source cursor (Cursor.part which walk) reader := by
  intro inside
  obtain ⟨safe, ⟨value, found, next, ran, read, onward, within, same⟩ | ⟨fault, ran, read⟩⟩ :=
    tracks inside
  · -- The reader leaves fewer lexemes behind, so the cursor stands further on.
    obtain ⟨head, piece, whole⟩ := advances _ _ _ _ read
    rw [part_ok which ran]
    refine ⟨List.forall_mem_append.mpr ⟨safe, List.forall_mem_singleton.mpr ⟨within, ?_⟩⟩,
      .inl ⟨value, found, next, rfl, read, onward, within, same⟩⟩
    exact Source.lt_of_behind whole
  · rw [part_error which ran]
    exact ⟨safe, .inr ⟨fault, rfl, read⟩⟩

/-! ## Loops -/

section Loops

variable {σ : Type} {walk : Nat → σ → Walk α} {reader : Nat → σ → Reader β}
  {post : α → β → Nat → Prop}

/-- A walk that goes round tracks a reader that does, from the bound on and with rounds enough. -/
def TracksRounds (source : Source) (bound : Nat) (walk : Nat → σ → Walk α)
    (reader : Nat → σ → Reader β) (post : α → β → Nat → Prop) : Prop :=
  ∀ cursor fuel rounds state, bound ≤ cursor → source.lexemes.length - cursor < fuel →
    source.lexemes.length - cursor ≤ rounds →
    TracksTo source cursor (walk fuel state) (reader rounds state) post

/-- Rounds track each other if what they do behind their first lexeme does.  At the end of the
lexemes a reader needs no round. -/
theorem tracksRounds
    (atEnd : ∀ state, reader 1 state source.context [] = reader 0 state source.context [])
    (step : ∀ cursor fuel rounds state, bound ≤ cursor →
      (∀ state' next, cursor < next →
        TracksTo source next (walk fuel state') (reader rounds state') post) →
      TracksTo source cursor (walk (fuel + 1) state) (reader (rounds + 1) state) post) :
    TracksRounds source bound walk reader post := by
  intro cursor fuel
  -- What is left of the lexemes is less than the rounds that are left, and shrinks with them.
  induction fuel generalizing cursor with
  | zero =>
      intro rounds state _ enough
      exact absurd enough (Nat.not_lt_zero _)
  | succ fuel ih =>
      intro rounds state behind enough within
      cases rounds with
      | zero =>
          -- The reader has no round left where there is no lexeme left; one more changes nothing.
          have nothing : source.behind cursor = [] :=
            List.drop_eq_nil_of_le (Nat.le_of_sub_eq_zero (Nat.le_zero.mp within))
          refine (step cursor fuel 0 state behind fun state' next later inside => ?_).congr ?_
          · omega
          · rw [nothing]
            exact atEnd state
      | succ rounds =>
          refine step cursor fuel rounds state behind fun state' next later inside => ?_
          exact ih next rounds state' (by omega) (by omega) (by omega) inside

/-- A loop begins with more rounds than there are lexemes. -/
theorem TracksRounds.start (loop : TracksRounds source bound walk reader post) (state : σ)
    (behind : bound ≤ cursor) :
    TracksTo source cursor (walk (source.lexemes.length + 1) state)
      (reader (source.behind cursor).length state) post :=
  loop cursor _ _ state behind (Nat.lt_succ_of_le (Nat.sub_le _ _))
    (source.length_behind cursor).ge

end Loops

theorem tracks_separatedRest {walk : Walk α} {item : Reader α} (separator : TokenKind)
    (tracks : Tracks source bound walk item) :
    TracksRounds source bound (fun fuel (_ : Unit) => Cursor.separatedRest separator walk fuel)
      (fun rounds (_ : Unit) => separatedRest separator item rounds) SameValue := by
  refine tracksRounds (fun _ => rfl) fun cursor fuel rounds _ behind later => ?_
  refine (tracksTo_eat separator cursor).branch ?_ (tracksTo_pure rfl)
  refine (tracks _ (Nat.le_succ_of_le behind)).andThen fun first next onward => ?_
  exact (later () next onward).andThen fun _ _ _ => tracksTo_pure rfl

theorem tracks_separated {walk : Walk α} {item : Reader α} (separator : TokenKind)
    (tracks : Tracks source bound walk item) :
    Tracks source bound (Cursor.separated separator walk) (separated separator item) := by
  refine fun cursor behind => (tracks cursor behind).andThen fun first next onward => ?_
  refine .look (.remaining ?_)
  exact ((tracks_separatedRest separator tracks).start () (behind.trans onward)).andThen
    fun _ _ _ => tracksTo_pure rfl

end ApiCompat.Signature
