import ApiCompat.Proofs.Cursor.Basic
import ApiCompat.Proofs.Respaced.Quoted
import Mathlib.Data.String.Basic

/-!
# Slices of a text

A slice from the start of one lexeme to the end of another that is not before
it is a piece of the text on boundaries of characters, and it is the source
text of these lexemes (`Spans.slice_run`).
-/

set_option autoImplicit false

namespace ApiCompat.Signature

open Cursor (Source Act)

variable {source : Source} {cursor next : Nat}

theorem extract_append (front piece back : String) :
    String.Pos.Raw.extract (front ++ piece ++ back) ⟨front.utf8ByteSize⟩
      ⟨(front ++ piece).utf8ByteSize⟩ = piece := by
  have cut := String.extract_of_valid front.toList piece.toList back.toList
  simp only [← String.utf8ByteSize_ofList, String.ofList_append, String.ofList_toList] at cut
  rw [String.utf8ByteSize_append, cut]

theorem isValid_append (front back : String) :
    (String.Pos.Raw.mk front.utf8ByteSize).IsValid (front ++ back) :=
  String.Pos.Raw.isValid_iff_exists_append.mpr ⟨front, back, rfl, rfl⟩

/-- Lexemes reach from one place of the cursor up to another, and from one byte to another. -/
structure Spans (source : Source) (cursor next start stop : Nat) : Prop where
  onward : cursor < next
  first : source.lexemes[cursor]?.map Lexeme.start = some start
  last : source.lexemes[next - 1]?.map Lexeme.stop = some stop

def Cursor.Source.between (source : Source) (cursor next : Nat) : List Lexeme :=
  (source.behind cursor).take (next - cursor)

theorem Cursor.Source.behind_between (source : Source) {cursor next : Nat}
    (onward : cursor ≤ next) :
    source.behind cursor = source.between cursor next ++ source.behind next := by
  have rest : (source.behind cursor).drop (next - cursor) = source.behind next := by
    rw [Source.behind, List.drop_drop, Nat.add_sub_cancel' onward, Source.behind]
  rw [between, ← rest, List.take_append_drop]

/-- A reader that left lexemes behind took those between. -/
theorem Cursor.Source.take_behind (source : Source) {cursor next : Nat} (onward : cursor ≤ next)
    (within : next ≤ source.lexemes.length) :
    (source.behind cursor).take ((source.behind cursor).length - (source.behind next).length) =
      source.between cursor next := by
  have count : (source.behind cursor).length - (source.behind next).length = next - cursor := by
    rw [source.length_behind, source.length_behind]
    omega
  rw [count, between]

theorem Cursor.Source.head?_between (source : Source) {cursor next : Nat} (onward : cursor < next) :
    (source.between cursor next).head? = source.lexemes[cursor]? := by
  rw [between, List.head?_take, if_neg (Nat.sub_ne_zero_of_lt onward), source.head?_behind]

theorem Cursor.Source.getLast?_between (source : Source) {cursor next : Nat}
    (onward : cursor < next) (within : next ≤ source.lexemes.length) :
    (source.between cursor next).getLast? = source.lexemes[next - 1]? := by
  have length : (source.between cursor next).length = next - cursor := by
    rw [between, List.length_take, source.length_behind]
    omega
  rw [List.getLast?_eq_getElem?, length, between, List.getElem?_take_of_lt (by omega),
    Source.behind, List.getElem?_drop]
  congr 1
  omega

theorem Cursor.Source.between_ne_nil (source : Source) {cursor next : Nat} (onward : cursor < next)
    (within : next ≤ source.lexemes.length) : source.between cursor next ≠ [] := by
  intro nothing
  have first := source.head?_between onward
  rw [nothing, List.getElem?_eq_getElem (onward.trans_le within)] at first
  cases first

theorem Cursor.Source.between_succ (source : Source) {since cursor : Nat} {next : Lexeme}
    (onward : since ≤ cursor) (here : source.lexemes[cursor]? = some next) :
    source.between since (cursor + 1) = source.between since cursor ++ [next] := by
  have last : (source.behind since)[cursor - since]? = some next := by
    rw [Source.behind, List.getElem?_drop, Nat.add_sub_cancel' onward, here]
  rw [between, Nat.succ_sub onward, List.take_add_one, last, Option.toList_some, between]

/-- The lexemes between two places of the cursor are quoted from the text. -/
theorem Cursor.Source.quotes_between (source : Source) {cursor next : Nat} (onward : cursor < next)
    (within : next ≤ source.lexemes.length) :
    Quotes source.text (source.between cursor next)
      (Lexeme.sourceText (source.between cursor next)) := by
  have whole : source.lexemes = source.lexemes.take cursor ++
      (source.between cursor next ++ source.behind next) := by
    rw [← source.behind_between onward.le, Source.behind, List.take_append_drop]
  exact quotes_of_tokenize (whole ▸ source.split) (source.between_ne_nil onward within)

/-- A piece of the text that is not empty is cut out where it begins and ends. -/
theorem slice_piece {front piece back : String} (whole : source.text = front ++ piece ++ back)
    (filled : piece ≠ "") (place : Nat) :
    Cursor.slice front.utf8ByteSize (front ++ piece).utf8ByteSize source place =
        ⟨.ok (piece, place),
          [⟨place, .slice front.utf8ByteSize (front ++ piece).utf8ByteSize⟩]⟩ ∧
      Act.Safe source place (.slice front.utf8ByteSize (front ++ piece).utf8ByteSize) := by
  have shorter : front.utf8ByteSize < (front ++ piece).utf8ByteSize := by
    have positive : piece.utf8ByteSize ≠ 0 := by simpa using filled
    rw [String.utf8ByteSize_append]
    omega
  have startValid : (String.Pos.Raw.mk front.utf8ByteSize).IsValid source.text := by
    rw [whole, String.append_assoc]
    exact isValid_append _ _
  have stopValid : (String.Pos.Raw.mk (front ++ piece).utf8ByteSize).IsValid source.text := by
    rw [whole]
    exact isValid_append _ _
  refine ⟨?_, shorter, startValid, stopValid⟩
  rw [Cursor.slice, if_pos ⟨shorter.le, startValid, stopValid⟩, whole, extract_append]

theorem Spans.slice_run {start stop : Nat} (spans : Spans source cursor next start stop)
    (within : next ≤ source.lexemes.length) (place : Nat) :
    Cursor.slice start stop source place =
        ⟨.ok (Lexeme.sourceText (source.between cursor next), place),
          [⟨place, .slice start stop⟩]⟩ ∧
      Act.Safe source place (.slice start stop) := by
  have quotes := source.quotes_between spans.onward within
  obtain ⟨front, back, first, last, whole, isFirst, isLast, atStart, atStop⟩ := quotes.cut
  rw [source.head?_between spans.onward] at isFirst
  rw [source.getLast?_between spans.onward within] at isLast
  obtain rfl : first.start = start := by simpa [isFirst] using spans.first
  obtain rfl : last.stop = stop := by simpa [isLast] using spans.last
  rw [atStart, atStop]
  exact slice_piece whole quotes.filled place

end ApiCompat.Signature
