import ApiCompat.Proofs.Faults.Blocks

/-!
# The lexeme on whose line a fault is

Nothing is computed from the lines of lexemes, so a fault is on the line of one
of them, and it stays at this lexeme when the lexemes are moved to other lines.
Lexemes that are numbered have lines of their own, which tells which lexeme it
is (`readPackages_blamed`).
-/

set_option autoImplicit false

namespace ApiCompat

def Lexeme.reline (shift : Nat → Nat) (lexeme : Lexeme) : Lexeme :=
  { lexeme with line := shift lexeme.line }

namespace Signature

open Grammar

variable {mode : NullMode} {lexemes front rest : List Lexeme} {lexeme : Lexeme} {fault : Fault}
  {shift : Nat → Nat} {move : Lexeme → Lexeme}

theorem relines_reline (shift : Nat → Nat) : Relines shift (Lexeme.reline shift) where
  kind _ := rfl
  text _ := rfl
  gap _ := rfl
  line _ := rfl

theorem Relines.standard (relines : Relines shift move) (standard : lexeme.Standard) :
    (move lexeme).Standard := by
  have bare : (move lexeme).bare = lexeme.bare := by
    rw [Lexeme.bare, relines.kind, relines.text, Lexeme.bare]
  constructor
  · rw [relines.kind, bare]
    exact standard.fixed
  · rw [relines.kind, relines.text]
    exact standard.identifier

theorem Relines.spells (relines : Relines shift move) {words : List Word}
    (spells : Spells words lexemes) : Spells words (lexemes.map move) := by
  rw [Spells, List.forall₂_map_right_iff]
  refine spells.imp fun word lexeme matched => ?_
  rw [Word.Matches, relines.kind, relines.text, relines.gap]
  exact matched

theorem Relines.leftOpen (relines : Relines shift move) {reason : Reason}
    (leftOpen : LeftOpen front lexeme rest reason) :
    LeftOpen (front.map move) (move lexeme) (rest.map move) reason := by
  cases leftOpen with
  | package blocks package before opened =>
      exact .package blocks package (relines.spells before) (relines.spells opened)
  | cls blocks package cls before opened =>
      exact .cls blocks package cls (relines.spells before) (relines.spells opened)

/-! ## What a fault says about a lexeme -/

/-- What the reason of a fault says about the lexeme on whose line it is. -/
def Shows (front : List Lexeme) (lexeme : Lexeme) (rest : List Lexeme) : Reason → Prop
  | .unexpected _ (some found) => (lexeme.kind, lexeme.text) = found
  | .unexpected _ none => rest = []
  | .unterminatedPackage name => LeftOpen front lexeme rest (.unterminatedPackage name)
  | .unterminatedClass name => LeftOpen front lexeme rest (.unterminatedClass name)
  | _ => True

theorem LeftOpen.shows {reason : Reason} (leftOpen : LeftOpen front lexeme rest reason) :
    Shows front lexeme rest reason := by
  cases leftOpen with
  | package blocks package before opened => exact .package blocks package before opened
  | cls blocks package cls before opened => exact .cls blocks package cls before opened

theorem Relines.shows (relines : Relines shift move) {reason : Reason}
    (shows : Shows front lexeme rest reason) :
    Shows (front.map move) (move lexeme) (rest.map move) reason := by
  unfold Shows at shows ⊢
  split at shows
  · rw [relines.kind, relines.text]
    exact shows
  · exact List.map_eq_nil_iff.mpr shows
  · exact relines.leftOpen shows
  · exact relines.leftOpen shows
  · trivial

/-- The lexeme on whose line the fault is stands here, and is as the fault says. -/
structure BlamedAt (front : List Lexeme) (lexeme : Lexeme) (rest : List Lexeme)
    (fault : Fault) : Prop where
  line : fault.line = lexeme.line
  shows : Shows front lexeme rest fault.reason

/-- Where the lexemes settle a fault, its line is one of theirs. -/
theorem line_mem_of_readPackages (standard : ∀ lexeme ∈ lexemes, lexeme.Standard)
    (failed : readPackages mode lexemes = .error fault) :
    fault.line ∈ lexemes.map Lexeme.line := by
  by_contra elsewhere
  -- moving all other lines changes no lexeme, so it cannot change the fault
  let away := fun line => if line ∈ lexemes.map Lexeme.line then line else line + 1
  have still : lexemes.map (Lexeme.reline away) = lexemes := by
    refine (List.map_congr_left fun lexeme member => ?_).trans (List.map_id lexemes)
    have kept : away lexeme.line = lexeme.line := if_pos (List.mem_map_of_mem member)
    rw [Lexeme.reline, kept]
    rfl
  have moved := readPackages_relined mode (relines_reline away) standard
  rw [still, failed] at moved
  have same : fault.line = away fault.line := congrArg Fault.line (Except.error.inj moved)
  rw [show away fault.line = fault.line + 1 from if_neg elsewhere] at same
  exact Nat.succ_ne_self _ same.symm

theorem packageBlocks_of_readPackages (failed : readPackages mode lexemes = .error fault) :
    packageBlocks lexemes.length .empty { nullMode := mode, endLine := lastLine lexemes } lexemes =
      .error fault := by
  unfold readPackages at failed
  dsimp only at failed
  split at failed
  · cases failed
  · next outcome =>
    rw [outcome, Except.error.inj failed]

theorem exists_blamedAt (standard : ∀ lexeme ∈ lexemes, lexeme.Standard)
    (failed : readPackages mode lexemes = .error fault) :
    ∃ front lexeme rest, lexemes = front ++ lexeme :: rest ∧ BlamedAt front lexeme rest fault := by
  obtain ⟨onLine, inLines, atLine⟩ :=
    List.mem_map.mp (line_mem_of_readPackages standard failed)
  obtain ⟨before, behind, cut⟩ := List.append_of_mem inLines
  have filled : lexemes ≠ [] := List.ne_nil_of_mem inLines
  rcases packageBlocks_error standard (packageBlocks_of_readPackages failed) with
    ⟨front, lexeme, rest, whole, line, leftOpen⟩ | blames
  · exact ⟨front, lexeme, rest, whole, line, leftOpen.shows⟩
  · obtain ⟨line, reason⟩ := fault
    cases reason with
    | unexpected expected found =>
        cases found with
        | none =>
            have shape := List.dropLast_append_getLast filled
            refine ⟨lexemes.dropLast, lexemes.getLast filled, [], shape.symm, ?_, rfl⟩
            obtain rfl : line = lastLine lexemes := blames
            rw [lastLine, List.getLast?_eq_getLast_of_ne_nil filled]
            rfl
        | some found =>
            obtain ⟨lexeme, member, sameLine, named⟩ := blames
            obtain ⟨front, rest, whole⟩ := List.append_of_mem member
            exact ⟨front, lexeme, rest, whole, sameLine.symm, named⟩
    | unterminatedPackage name => exact blames.elim
    | unterminatedClass name => exact blames.elim
    | _ => exact ⟨before, onLine, behind, cut, atLine.symm, trivial⟩

/-! ## Which lexeme it is -/

/-- With something else behind these lexemes the outcome is another one, so more than these was
read before the fault. -/
def Undecided (mode : NullMode) (front : List Lexeme) (fault : Fault) : Prop :=
  ∃ more, readPackages mode (front ++ more) ≠ .error fault

def numbered (lexemes : List Lexeme) : List Lexeme :=
  lexemes.mapIdx fun index lexeme => { lexeme with line := index }

/-- The lines of the lexemes by their numbers. -/
def lineAt (lexemes : List Lexeme) (index : Nat) : Nat := (lexemes[index]?.map Lexeme.line).getD 0

theorem numbered_relined (lexemes : List Lexeme) :
    (numbered lexemes).map (Lexeme.reline (lineAt lexemes)) = lexemes := by
  refine List.ext_getElem (by simp [numbered]) fun index inside inside' => ?_
  simp [numbered, Lexeme.reline, lineAt, inside']

theorem numbered_increase (lexemes : List Lexeme) :
    (numbered lexemes).Pairwise fun lexeme next => lexeme.line < next.line := by
  rw [List.pairwise_iff_getElem]
  intro index later inside inside' before
  simpa [numbered] using before

theorem standard_numbered (standard : ∀ lexeme ∈ lexemes, lexeme.Standard) :
    ∀ lexeme ∈ numbered lexemes, lexeme.Standard := by
  intro lexeme member
  obtain ⟨index, inside, rfl⟩ := List.mem_mapIdx.mp member
  have kept := (relines_reline fun _ => index).standard (standard _ (List.getElem_mem inside))
  exact kept

/-- Where each lexeme has a line of its own, a fault follows the lexeme on whose line it is. -/
theorem undecided_of_line
    (increase : (front ++ lexeme :: rest).Pairwise fun lexeme next => lexeme.line < next.line)
    (standard : ∀ other ∈ front ++ lexeme :: rest, other.Standard)
    (failed : readPackages mode (front ++ lexeme :: rest) = .error fault)
    (line : fault.line = lexeme.line) (shift : Nat → Nat) :
    Undecided mode (front.map (Lexeme.reline shift)) (fault.move shift) := by
  let away := fun line => if line < lexeme.line then shift line else shift line + 1
  have stays : front.map (Lexeme.reline away) = front.map (Lexeme.reline shift) := by
    refine List.map_congr_left fun earlier member => ?_
    have before := (List.pairwise_append.mp increase).2.2 earlier member lexeme List.mem_cons_self
    have kept : away earlier.line = shift earlier.line := if_pos before
    rw [Lexeme.reline, Lexeme.reline, kept]
  have follows := readPackages_relined mode (relines_reline away) standard
  rw [failed, List.map_append, stays] at follows
  refine ⟨(lexeme :: rest).map (Lexeme.reline away), fun same => ?_⟩
  have lines : away fault.line = shift fault.line :=
    congrArg Fault.line (Except.error.inj (follows.symm.trans same))
  have moved : away lexeme.line = shift lexeme.line + 1 := if_neg (Nat.lt_irrefl _)
  rw [line, moved] at lines
  exact Nat.succ_ne_self _ lines

/-- A fault is on the line of a lexeme that it tells of, and what is in front of this lexeme does
not settle it. -/
theorem readPackages_blamed (standard : ∀ lexeme ∈ lexemes, lexeme.Standard)
    (failed : readPackages mode lexemes = .error fault) :
    ∃ front lexeme rest, lexemes = front ++ lexeme :: rest ∧
      BlamedAt front lexeme rest fault ∧ Undecided mode front fault := by
  have standard' := standard_numbered standard
  have increase := numbered_increase lexemes
  have relines := relines_reline (lineAt lexemes)
  have moved := readPackages_relined mode relines standard'
  have cut := numbered_relined lexemes
  rw [cut, failed] at moved
  cases outcome : readPackages mode (numbered lexemes) with
  | ok packages =>
      rw [outcome] at moved
      cases moved
  | error fault' =>
      rw [outcome] at moved
      obtain rfl : fault = fault'.move (lineAt lexemes) := Except.error.inj moved
      obtain ⟨front, lexeme, rest, whole, line, shows⟩ := exists_blamedAt standard' outcome
      rw [whole] at standard' increase outcome
      rw [whole, List.map_append, List.map_cons] at cut
      exact ⟨_, _, _, cut.symm, ⟨congrArg (lineAt lexemes) line, relines.shows shows⟩,
        undecided_of_line increase standard' outcome line (lineAt lexemes)⟩

end Signature

end ApiCompat
