import WordMachine.Proofs.EncodedText
import WordMachine.Proofs.StoredLines
import WordMachine.Text.Decoder

/-!
# Decoding in blocks

A text that is decoded block by block is released as the text that the whole encodes, with its line
ends unified, wherever the blocks cut a character or a line end.
-/

namespace WordMachine

namespace Text

namespace Utf8

/-- The bytes of a character without the last ones, or none at all. -/
inductive Begins : Bytes → Prop where
  | none : Begins []
  | some {c : Char} {front back : Bytes} (spells : Spells c (front ++ back)) (begun : front ≠ [])
      (short : back ≠ []) : Begins front

variable {bs front back : Bytes} {cs : List Char} {c : Char}

theorem scanOnto_take (spells : Spells c bs) {n : Nat} (begun : 0 < n) (short : n < bs.length)
    (pos : Nat) (acc : List Char) :
    ∃ failure, scanOnto (bs.take n) pos acc = (acc.reverse, .unfinished failure) ∧
      failure.position = pos := by
  cases spells with
  | one first =>
      simp only [List.length_singleton] at short
      omega
  | @two a b above below tail =>
      obtain rfl : n = 1 := by
        simp only [List.length_cons, List.length_nil] at short
        omega
      have large : ¬a < 0x80 := by grind
      exact ⟨⟨.truncated, pos, [a]⟩, by simp [scanOnto, large, above, below], rfl⟩
  | @three a b c above below second tail =>
      have large : ¬a < 0x80 := by grind
      have large' : ¬a < 0xC2 := by grind
      have places : n = 1 ∨ n = 2 := by
        simp only [List.length_cons, List.length_nil] at short
        omega
      rcases places with rfl | rfl
      · exact ⟨⟨.truncated, pos, [a]⟩, by simp [scanOnto, large, large', above, below], rfl⟩
      · exact ⟨⟨.truncated, pos, [a, b]⟩,
          by simp [scanOnto, large, large', above, below, second], rfl⟩
  | @four a b c d above below second tail tail' =>
      have large : ¬a < 0x80 := by grind
      have large' : ¬a < 0xC2 := by grind
      have large'' : ¬a < 0xE0 := by grind
      have places : n = 1 ∨ n = 2 ∨ n = 3 := by
        simp only [List.length_cons, List.length_nil] at short
        omega
      rcases places with rfl | rfl | rfl
      · exact ⟨⟨.truncated, pos, [a]⟩, by simp [scanOnto, large, large', large'', above, below],
          rfl⟩
      · exact ⟨⟨.truncated, pos, [a, b]⟩,
          by simp [scanOnto, large, large', large'', above, below, second], rfl⟩
      · exact ⟨⟨.truncated, pos, [a, b, c]⟩,
          by simp [scanOnto, large, large', large'', above, below, second, tail], rfl⟩

/-- A scan that has come to bytes that only begin a character stops in front of them. -/
theorem Begins.scanOnto (begins : Begins front) (pos : Nat) (acc : List Char) :
    ∃ ending, Utf8.scanOnto front pos acc = (acc.reverse, ending) ∧
      (∀ failure, ending ≠ .invalid failure) ∧ ending.offset (pos + front.length) = pos ∧
      (ending = .complete → front = []) := by
  cases begins with
  | none => exact ⟨.complete, rfl, fun _ => Ending.noConfusion, rfl, fun _ => rfl⟩
  | @some c front back spells begun short =>
      have positive : 0 < front.length := List.length_pos_iff.mpr begun
      have shorter : front.length < (front ++ back).length := by
        have := List.length_pos_iff.mpr short
        rw [List.length_append]
        omega
      obtain ⟨failure, stops, position⟩ := scanOnto_take spells positive shorter pos acc
      rw [List.take_left] at stops
      exact ⟨.unfinished failure, stops, fun _ => Ending.noConfusion, position,
        fun complete => Ending.noConfusion complete⟩

/-- What only begins a character writes nothing. -/
theorem Begins.eq_nil (begins : Begins front) (writes : Writes cs front) : front = [] := by
  obtain ⟨ending, stops, -, -, only⟩ := begins.scanOnto 0 []
  rw [scanOnto_of_writes writes] at stops
  exact only (Prod.mk.inj stops).2.symm

/-- Wherever a written text is cut, the part in front of the cut writes whole characters and then
begins one at most. -/
theorem Writes.cut (writes : Writes cs (front ++ back)) :
    ∃ whole part done left, front = whole ++ part ∧ cs = done ++ left ∧ Writes done whole ∧
      Begins part ∧ Writes left (part ++ back) := by
  generalize all : front ++ back = bs at writes
  induction writes generalizing front with
  | nil =>
      obtain ⟨rfl, rfl⟩ := List.append_eq_nil_iff.mp all
      exact ⟨[], [], [], [], rfl, rfl, .nil, .none, .nil⟩
  | @cons c cs bs rest spells later ih =>
      -- the cut lies in front of the first character, behind it, inside it or in what follows
      rcases List.append_eq_append_iff.mp all with ⟨more, rfl, rfl⟩ | ⟨more, rfl, rfl⟩
      · by_cases begun : front = []
        · subst begun
          have whole := Writes.cons spells later
          exact ⟨[], [], [], c :: cs, rfl, rfl, .nil, .none, whole⟩
        · by_cases short : more = []
          · subst short
            rw [List.append_nil] at spells
            have first := Writes.cons spells .nil
            rw [List.append_nil] at first
            exact ⟨front, [], [c], cs, by simp, rfl, first, .none, later⟩
          · have whole := Writes.cons spells later
            rw [List.append_assoc] at whole
            exact ⟨[], front, [], c :: cs, rfl, rfl, .nil, .some spells begun short, whole⟩
      · obtain ⟨whole, part, done, left, rfl, rfl, written, begins, unread⟩ := ih rfl
        exact ⟨bs ++ whole, part, c :: done, left, by simp, rfl, .cons spells written, begins,
          unread⟩

end Utf8

variable {cs : List Char}

theorem unifyOnto_append_of_last (last : cs.getLast? ≠ some '\r') (rest acc : List Char) :
    unifyOnto (cs ++ rest) acc = unifyOnto cs acc ++ unifyNewlines rest := by
  fun_induction unifyOnto cs acc with
  | case1 later acc ih =>
      rw [List.cons_append, List.cons_append, unifyOnto, ih]
      cases later <;> simp_all
  | case2 later acc single ih =>
      cases later with
      | nil => simp at last
      | cons c later =>
          have other : c ≠ '\n' := fun is => single later (is ▸ rfl)
          rw [List.cons_append, unifyOnto, ih]
          · simpa using last
          · intro more starts
            exact other (List.cons.inj starts).1
  | case3 c later acc double single ih =>
      rw [List.cons_append, unifyOnto, ih]
      · cases later <;> simp_all
      · exact fun _ is => absurd is single
      · exact single
  | case4 acc => exact unifyOnto_acc rest [] acc

/-- Line ends are unified before and after a place, unless a carriage return stands before it. -/
theorem unifyNewlines_append_of_last (last : cs.getLast? ≠ some '\r') (rest : List Char) :
    unifyNewlines (cs ++ rest) = unifyNewlines cs ++ unifyNewlines rest :=
  unifyOnto_append_of_last last rest []

namespace Decoder

/-- A text behind the carriage return that may be held back. -/
def behind (held : Bool) (cs : List Char) : List Char := if held then '\r' :: cs else cs

/-- The text that is still to be released when the given characters are still to be decoded. -/
def pending (d : Decoder) (cs : List Char) : List Char := unifyNewlines (behind d.heldReturn cs)

theorem unify_release (held : Bool) (text rest : List Char) :
    unifyNewlines (behind held (text ++ rest)) =
      (release held text).1 ++ unifyNewlines (behind (release held text).2 rest) := by
  cases text with
  | nil => cases held <;> simp [release, behind, unifyNewlines, unifyOnto]
  | cons c cs =>
      have joined : behind held (c :: cs ++ rest) = behind held (c :: cs) ++ rest := by
        cases held <;> rfl
      have released : release held (c :: cs) =
          if (behind held (c :: cs)).getLast? = some '\r' then
            (unifyNewlines (behind held (c :: cs)).dropLast, true)
          else (unifyNewlines (behind held (c :: cs)), false) := by
        cases held <;> simp [release, behind]
      rw [joined, released]
      generalize behind held (c :: cs) = text
      split
      · next last =>
          have whole : text = text.dropLast ++ ['\r'] := by
            obtain ⟨init, rfl⟩ := List.getLast?_eq_some_iff.mp last
            rw [List.dropLast_concat]
          have apart : ('\r' :: rest).head? ≠ some '\n' := by simp
          conv_lhs => rw [whole, List.append_assoc, List.singleton_append]
          exact unifyNewlines_append text.dropLast apart
      · next last => exact unifyNewlines_append_of_last last rest

open Utf8 (Writes Begins)

/-- A block releases the characters that it completes. What is released of the text by and by is
the text. -/
theorem feed_of_writes {d : Decoder} {block unread : Bytes}
    (writes : Writes cs (d.carried ++ block ++ unread)) :
    ∃ text d' left, d.feed block = .ok (text, d') ∧ Begins d'.carried ∧
      Writes left (d'.carried ++ unread) ∧ d.pending cs = text ++ d'.pending left := by
  obtain ⟨whole, part, done, left, all, rfl, written, begins, later⟩ := writes.cut
  obtain ⟨ending, stops, valid, offset, -⟩ := begins.scanOnto whole.length done.reverse
  have scanned : Utf8.scan (d.carried ++ block) = (done, ending) := by
    rw [all, Utf8.scan, Utf8.scanOnto_append written, Nat.zero_add, List.append_nil, stops,
      List.reverse_reverse]
  have place : ending.offset (d.carried ++ block).length = whole.length := by
    rw [all, List.length_append]
    exact offset
  have carried : (d.carried ++ block).drop (ending.offset (d.carried ++ block).length) = part := by
    rw [place, all, List.drop_left]
  refine ⟨(release d.heldReturn done).1, ⟨part, (release d.heldReturn done).2⟩, left, ?_, begins,
    later, unify_release d.heldReturn done left⟩
  unfold feed
  dsimp only
  rw [scanned]
  cases ending with
  | complete => simp only [carried]
  | unfinished failure => simp only [carried]
  | invalid failure => exact absurd rfl (valid failure)

/-- At the end of a text nothing is left but a carriage return that was held back. -/
theorem finish_of_writes {d : Decoder} (begins : Begins d.carried) (writes : Writes cs d.carried) :
    d.finish = .ok (d.pending cs, {}) := by
  have none_carried := begins.eq_nil writes
  rw [none_carried] at writes
  have none_left : cs = [] := by
    have decoded := Utf8.decode_eq_ok_iff.mpr writes
    exact (Except.ok.inj decoded).symm
  rw [finish, none_carried, none_left, pending]
  cases d.heldReturn <;> rfl

end Decoder

end Text

end WordMachine
