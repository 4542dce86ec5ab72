import WordMachine.Input.Stream
import WordMachine.Proofs.BlockDecoding
import WordMachine.Proofs.CutText

/-!
# Lines of streams

A stream hands out the lines of its whole text, wherever the blocks that it is read in cut a line.
The last line counts without a line end too.
-/

namespace WordMachine

open Text (Cut Shorn piecesAfter piecesOnto)
open Text.Utf8 (Writes Begins)

/-- The bytes that a source still has, when the files that are held open have the given contents. -/
def Source.left (content : Handle → Bytes) : Source → Bytes
  | .bytes rest => rest
  | .file place => ((content place.file).drop place.offset).take (maxOffset - place.offset)

variable {content : Handle → Bytes} {t : FileTree}

/-- What stands behind a block, where no more than `most` items are looked at. -/
theorem drop_block {α : Type} (items : List α) (size most : Nat) :
    (items.drop (items.take (min size most)).length).take
        (most - (items.take (min size most)).length) = (items.take most).drop size := by
  have block : (items.take (min size most)).length = min size (items.take most).length := by
    simp only [List.length_take]
    omega
  rw [block, ← List.drop_take]
  by_cases short : (items.take most).length ≤ size
  · rw [Nat.min_eq_right short, List.drop_length, List.drop_eq_nil_of_le short]
  · rw [Nat.min_eq_left (by omega)]

theorem Source.next_left (s : Source) (same : t.held = content) :
    (s.next t).1 = (s.left content).take blockSize ∧
      (s.next t).2.left content = (s.left content).drop blockSize := by
  subst same
  cases s with
  | bytes rest => exact ⟨rfl, rfl⟩
  | file place =>
      have rest := drop_block ((t.held place.file).drop place.offset) blockSize
        (maxOffset - place.offset)
      rw [List.drop_drop, Nat.sub_sub] at rest
      exact ⟨by simp only [next, FileTree.readAt, left, List.take_take], rest⟩

namespace TextStream

/-- The stream has the given lines left before its end, as long as the files that are held open have
the given contents. -/
inductive Brings (content : Handle → Bytes) (s : TextStream) (lines : List String) : Prop where
  | intro {text : List Char} (begins : Begins s.decoder.carried)
      (writes : Writes text (s.decoder.carried ++ s.source.left content))
      (ending : s.ending = .closes)
      (all : s.lines ++ (piecesAfter s.started (s.decoder.pending text)).map String.ofList = lines)

variable {s : TextStream} {line : String} {lines : List String}

/-- What a text that is released leaves to come. -/
theorem lines_extend (s : TextStream) (text later : List Char) :
    (s.extend text).lines ++ (piecesAfter (s.extend text).started later).map String.ofList =
      s.lines ++ (piecesAfter s.started (text ++ later)).map String.ofList := by
  simp only [extend, Text.piecesAfter_append, List.map_append, List.append_assoc]

theorem Brings.close (brings : s.Brings content lines) (read : s.source.left content = []) :
    ∃ s', s.close = (none, s') ∧ s'.Brings content lines ∧ (s'.lines = [] → lines = []) := by
  cases brings with
  | @intro text begins writes ending all =>
      rw [read, List.append_nil] at writes
      let s' := { s with decoder := {} }.extend (s.decoder.pending text)
      have rest := lines_extend { s with decoder := {} } (s.decoder.pending text) []
      rw [List.append_nil] at rest
      replace all := rest.trans all
      have nothing : Writes [] (([] : Bytes) ++ s.source.left content) := by
        rw [read]
        exact .nil
      have closed : s.close = (none,
          if s'.lines.isEmpty && !s'.started.isEmpty then
            { s' with lines := [String.ofList s'.started.reverse], started := [] }
          else s') := by
        unfold TextStream.close
        rw [Text.Decoder.finish_of_writes begins writes]
      refine ⟨_, closed, ?_⟩
      change s'.lines ++ (piecesAfter s'.started []).map String.ofList = lines at all
      split
      · next unended =>
          rw [Bool.and_eq_true, List.isEmpty_iff, Bool.not_eq_true', List.isEmpty_eq_false_iff]
            at unended
          obtain ⟨none_left, begun⟩ := unended
          have last : piecesAfter s'.started [] = [s'.started.reverse] := by
            simp [piecesAfter, piecesOnto, begun]
          rw [none_left, last] at all
          exact ⟨.intro .none nothing ending all, fun empty => absurd empty (by simp)⟩
      · next ended =>
          refine ⟨.intro .none nothing ending all, ?_⟩
          intro empty
          have nothing_begun : s'.started = [] := by
            simpa [empty] using ended
          rw [empty, nothing_begun] at all
          exact all.symm

/-- A block is decoded, and the lines that it does not end are still to come. -/
theorem Brings.feed (brings : s.Brings content lines) (same : t.held = content) :
    ∃ text decoder, s.decoder.feed (s.source.next t).1 = .ok (text, decoder) ∧
      ({ s with source := (s.source.next t).2, decoder }.extend text).Brings content lines := by
  obtain ⟨block, rest⟩ := s.source.next_left same
  cases brings with
  | @intro unread begins writes ending all =>
      have whole : s.source.left content =
          (s.source.next t).1 ++ (s.source.next t).2.left content := by
        rw [block, rest, List.take_append_drop]
      rw [whole, ← List.append_assoc] at writes
      obtain ⟨text, decoder, left, fed, begins', writes', released⟩ :=
        Text.Decoder.feed_of_writes writes
      refine ⟨text, decoder, fed, .intro begins' writes' ending ?_⟩
      rw [released] at all
      exact (lines_extend _ text _).trans all

theorem Brings.extend {text : List Char} {decoder : Text.Decoder}
    (brings : s.Brings content lines) (same : t.held = content)
    (fed : s.decoder.feed (s.source.next t).1 = .ok (text, decoder)) :
    ({ s with source := (s.source.next t).2, decoder }.extend text).Brings content lines := by
  obtain ⟨text', decoder', fed', brings'⟩ := brings.feed same
  obtain ⟨rfl, rfl⟩ : text = text' ∧ decoder = decoder' := by
    simpa using fed.symm.trans fed'
  exact brings'

/-- Reading blocks until one ends a line loses nothing. None is ended only at the end. -/
theorem Brings.fill (brings : s.Brings content lines) (same : t.held = content) :
    ∃ s', s.fill t = (none, s') ∧ s'.Brings content lines ∧ (s'.lines = [] → lines = []) := by
  fun_induction TextStream.fill s t with
  | case1 s block ended =>
      obtain ⟨block_eq, -⟩ := s.source.next_left same
      have read : s.source.left content = [] := by
        have empty : (s.source.next t).1 = [] := List.isEmpty_iff.mp ended
        rw [block_eq, List.take_eq_nil_iff] at empty
        exact empty.resolve_left (by decide)
      exact brings.close read
  | case2 s block source begun failure fed =>
      obtain ⟨text, decoder, fed', -⟩ := brings.feed same
      rw [fed] at fed'
      cases fed'
  | case3 s block source begun text decoder fed s' short ih =>
      exact ih (brings.extend same fed)
  | case4 s block source begun text decoder fed s' ready =>
      have brings' := brings.extend same fed
      exact ⟨_, rfl, brings', fun empty => absurd (List.isEmpty_iff.mpr empty) ready⟩

theorem Brings.take (brings : s.Brings content (line :: lines)) (ready : s.lines ≠ []) :
    s.take.1 = .line line ∧ s.take.2.Brings content lines := by
  cases brings with
  | @intro text begins writes ending all =>
      unfold TextStream.take
      cases left : s.lines with
      | nil => exact absurd left ready
      | cons first rest =>
          rw [left, List.cons_append] at all
          obtain ⟨rfl, rfl⟩ := List.cons.inj all
          exact ⟨rfl, .intro begins writes ending rfl⟩

theorem Brings.nil_lines (brings : s.Brings content []) : s.lines = [] := by
  cases brings with
  | intro begins writes ending all => exact (List.append_eq_nil_iff.mp all).1

theorem Brings.ending (brings : s.Brings content lines) : s.ending = .closes := by
  cases brings with
  | intro begins writes ending all => exact ending

/-- A stream hands out the next of its lines. -/
theorem Brings.nextLine (brings : s.Brings content (line :: lines)) (same : t.held = content) :
    (s.nextLine t).1 = .line line ∧ (s.nextLine t).2.Brings content lines := by
  unfold TextStream.nextLine
  split
  · obtain ⟨s', filled, brings', empty⟩ := brings.fill same
    have ready : s'.lines ≠ [] := fun none_left => List.cons_ne_nil _ _ (empty none_left)
    rw [filled]
    exact brings'.take ready
  · next ready => exact brings.take fun none_left => ready (List.isEmpty_iff.mpr none_left)

/-- A stream without lines closes, and goes on closing. -/
theorem Brings.nextLine_nil (brings : s.Brings content []) (same : t.held = content) :
    (s.nextLine t).1 = .closed ∧ (s.nextLine t).2.Brings content [] := by
  obtain ⟨s', filled, brings', -⟩ := brings.fill same
  have taken : s'.take = (.closed, s') := by
    unfold TextStream.take
    rw [brings'.nil_lines, brings'.ending]
    rfl
  unfold TextStream.nextLine
  rw [brings.nil_lines, filled]
  simp only [List.isEmpty_nil, if_true, taken]
  exact ⟨trivial, brings'⟩

theorem brings_ofText {text : List Char} {pieces : List (List Char)} (cut : Cut pieces text)
    (shorn : List.Forall₂ Shorn pieces (lines.map String.toList)) :
    (ofText text .closes).Brings content lines := by
  refine .intro .none .nil rfl ?_
  show (Text.streamLines text).map String.ofList ++ [] = lines
  rw [Text.streamLines_of_cut cut shorn]
  simp

theorem brings_ofBytes {bs : Bytes} {text : List Char} (decoded : Text.Utf8.decode bs = .ok text)
    (cut : Cut (lines.map String.toList) (Text.unifyNewlines text)) :
    (ofBytes bs .closes).Brings content lines := by
  refine .intro .none (Text.Utf8.decode_eq_ok_iff.mp decoded) rfl ?_
  show (piecesAfter [] (Text.unifyNewlines text)).map String.ofList = lines
  rw [Text.cut_iff.mp cut]
  simp

theorem brings_ofFile {file : Handle} {text : List Char} (fits : (content file).length ≤ maxOffset)
    (decoded : Text.Utf8.decode (content file) = .ok text)
    (cut : Cut (lines.map String.toList) (Text.unifyNewlines text)) :
    (ofFile file).Brings content lines := by
  have left : (Source.file { file }).left content = content file := by
    simp only [Source.left, List.drop_zero, Nat.sub_zero]
    exact List.take_of_length_le fits
  have writes : Writes text ([] ++ (Source.file { file }).left content) := by
    rw [left]
    exact Text.Utf8.decode_eq_ok_iff.mp decoded
  refine .intro .none writes rfl ?_
  · show (piecesAfter [] (Text.unifyNewlines text)).map String.ofList = lines
    rw [Text.cut_iff.mp cut]
    simp

end TextStream

end WordMachine
