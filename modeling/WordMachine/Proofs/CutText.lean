import Mathlib.Data.List.Forall2
import WordMachine.Text.Lines

/-!
# Cutting a text into lines

Line feeds cut a text in one way. The lines of a stream are what they cut it into, each without one
carriage return at its end.
-/

namespace WordMachine.Text

/-- The texts that line feeds cut a text into. What stands behind the last one counts unless it is
empty. -/
inductive Cut : List (List Char) → List Char → Prop where
  | none : Cut [] []
  | last {piece : List Char} (filled : piece ≠ []) (plain : '\n' ∉ piece) : Cut [piece] piece
  | feed {piece text : List Char} {pieces : List (List Char)} (plain : '\n' ∉ piece)
      (rest : Cut pieces text) : Cut (piece :: pieces) (piece ++ '\n' :: text)

/-- A line, and how it stands in the text: a carriage return may follow it. -/
inductive Shorn : List Char → List Char → Prop where
  | kept {line : List Char} (open_ended : line.getLast? ≠ some '\r') : Shorn line line
  | returned {line : List Char} : Shorn (line ++ ['\r']) line

variable {cs piece : List Char} {lines : List (List Char)}

theorem piecesOnto_acc (cs piece : List Char) (acc : List (List Char)) :
    piecesOnto cs piece acc =
      (acc.reverse ++ (piecesOnto cs piece []).1, (piecesOnto cs piece []).2) := by
  induction cs generalizing piece acc with
  | nil => simp [piecesOnto]
  | cons c cs ih =>
      simp only [piecesOnto]
      split
      · rw [ih, ih [] [piece.reverse]]
        simp
      · exact ih _ _

theorem piecesOnto_of_plain {line : List Char} (plain : '\n' ∉ line) (cs piece : List Char) :
    piecesOnto (line ++ cs) piece [] = piecesOnto cs (line.reverse ++ piece) [] := by
  induction line generalizing piece with
  | nil => rfl
  | cons c line ih =>
      simp only [List.mem_cons, not_or] at plain
      rw [List.cons_append, piecesOnto, if_neg (Ne.symm plain.1), ih plain.2]
      simp

/-- The pieces of a text with `begun` in front of it, which is in reverse. -/
def piecesAfter (begun cs : List Char) : List (List Char) :=
  let (pieces, rest) := piecesOnto cs begun []
  if rest.isEmpty then pieces else pieces ++ [rest.reverse]

theorem piecesOnto_append (front cs begun : List Char) :
    piecesOnto (front ++ cs) begun [] =
      ((piecesOnto front begun []).1 ++ (piecesOnto cs (piecesOnto front begun []).2 []).1,
        (piecesOnto cs (piecesOnto front begun []).2 []).2) := by
  induction front generalizing begun with
  | nil => rfl
  | cons c front ih =>
      simp only [List.cons_append, piecesOnto]
      split
      · rw [piecesOnto_acc, ih, piecesOnto_acc front [] [begun.reverse]]
        simp
      · exact ih (c :: begun)

theorem piecesAfter_append (front cs begun : List Char) :
    piecesAfter begun (front ++ cs) =
      (piecesOnto front begun []).1 ++ piecesAfter (piecesOnto front begun []).2 cs := by
  simp only [piecesAfter, piecesOnto_append]
  split <;> simp

theorem piecesAfter_of_plain (plain : '\n' ∉ piece) (begun cs : List Char) :
    piecesAfter begun (piece ++ cs) = piecesAfter (piece.reverse ++ begun) cs := by
  have first : piecesOnto piece begun [] = ([], piece.reverse ++ begun) := by
    have alone := piecesOnto_of_plain plain [] begun
    rw [List.append_nil] at alone
    exact alone
  rw [piecesAfter_append, first, List.nil_append]

theorem piecesAfter_nil (begun : List Char) :
    piecesAfter begun [] = if begun.isEmpty then [] else [begun.reverse] := rfl

theorem piecesAfter_feed (begun cs : List Char) :
    piecesAfter begun ('\n' :: cs) = begun.reverse :: piecesAfter [] cs :=
  piecesAfter_append ['\n'] cs begun

theorem piecesAfter_of_cut (cut : Cut lines cs) : piecesAfter [] cs = lines := by
  induction cut with
  | none => rfl
  | @last piece filled plain =>
      have whole := piecesAfter_of_plain plain [] []
      rw [List.append_nil, List.append_nil] at whole
      rw [whole, piecesAfter_nil, List.reverse_reverse]
      simp [filled]
  | @feed piece text pieces plain rest ih =>
      rw [piecesAfter_of_plain plain, List.append_nil, piecesAfter_feed, ih, List.reverse_reverse]

theorem cut_piecesAfter {begun : List Char} (plain : '\n' ∉ begun) (cs : List Char) :
    Cut (piecesAfter begun cs) (begun.reverse ++ cs) := by
  induction cs generalizing begun with
  | nil =>
      rw [List.append_nil, piecesAfter_nil]
      split
      · next empty =>
          rw [List.isEmpty_iff.mp empty]
          exact .none
      · next filled =>
          refine .last ?_ (by simpa using plain)
          simpa using filled
  | cons c cs ih =>
      by_cases feed : c = '\n'
      · subst feed
        rw [piecesAfter_feed]
        exact .feed (by simpa using plain) (ih List.not_mem_nil)
      · have plain' : '\n' ∉ c :: begun := by
          simp [plain, Ne.symm feed]
        have single : '\n' ∉ [c] := by simpa using Ne.symm feed
        have later := piecesAfter_of_plain single begun cs
        rw [List.singleton_append, List.reverse_singleton, List.singleton_append] at later
        have cut := ih plain'
        rw [List.reverse_cons, List.append_assoc, List.singleton_append] at cut
        rw [later]
        exact cut

/-- There is one way to cut a text. -/
theorem cut_iff : Cut lines cs ↔ piecesAfter [] cs = lines := by
  constructor
  · exact piecesAfter_of_cut
  · intro is
    rw [← is]
    exact cut_piecesAfter List.not_mem_nil cs

theorem dropReturn_of_open_ended {line : List Char} (open_ended : line.getLast? ≠ some '\r') :
    dropReturn line = line := by
  unfold dropReturn
  split
  · next last => exact absurd last open_ended
  · rfl

theorem dropReturn_of_shorn {line : List Char} (shorn : Shorn piece line) :
    dropReturn piece = line := by
  cases shorn with
  | kept open_ended => exact dropReturn_of_open_ended open_ended
  | returned => simp [dropReturn]

theorem streamLines_eq (cs : List Char) : streamLines cs = (piecesAfter [] cs).map dropReturn := by
  simp only [streamLines, linesAndRest, piecesAfter, List.isEmpty_reverse]

theorem streamLines_of_cut {pieces : List (List Char)} (cut : Cut pieces cs)
    (shorn : List.Forall₂ Shorn pieces lines) : streamLines cs = lines := by
  rw [streamLines_eq, cut_iff.mp cut]
  clear cut
  induction shorn with
  | nil => rfl
  | cons first _ ih => rw [List.map_cons, dropReturn_of_shorn first, ih]

end WordMachine.Text
