import WordMachine.Text.Lines
import WordMachine.Text.Utf8

/-!
# Decoding in blocks

A text that arrives in blocks of bytes is decoded block by block. A character that a block leaves
unfinished is completed by the next one, and a carriage return at the end of a block waits for the
character after it, which may be the second half of a line end. A decoder never releases more
characters than it was given bytes.
-/

namespace WordMachine.Text

/-- What a decoder keeps between two blocks: the bytes of an unfinished character, and whether a
carriage return is held back. -/
structure Decoder where
  carried : Bytes := []
  heldReturn : Bool := false
  deriving DecidableEq, Repr

namespace Decoder

/-- The characters of a block with unified line ends, after a carriage return that was held back,
and whether the last one is held back now. -/
def release (held : Bool) (text : List Char) : List Char × Bool :=
  let text := if held && !text.isEmpty then '\r' :: text else text
  if text.getLast? = some '\r' then (unifyNewlines text.dropLast, true)
  else (unifyNewlines text, held && text.isEmpty)

/-- The characters that a block releases. A block that is refused leaves the decoder as it was. -/
def feed (d : Decoder) (block : Bytes) : Except Utf8.Failure (List Char × Decoder) :=
  let bytes := d.carried ++ block
  match Utf8.scan bytes with
  | (_, .invalid failure) => .error failure
  | (text, ending) =>
      let released := release d.heldReturn text
      .ok (released.1,
        { carried := bytes.drop (ending.offset bytes.length), heldReturn := released.2 })

/-- The characters that the end of the text releases. -/
def finish (d : Decoder) : Except Utf8.Failure (List Char × Decoder) :=
  match Utf8.decode d.carried with
  | .error failure => .error failure
  | .ok _ => .ok (if d.heldReturn then ['\n'] else [], {})

/-- A bound on the number of characters that are kept back. -/
def size (d : Decoder) : Nat := d.carried.length + d.heldReturn.toNat

theorem length_release_le (held : Bool) (text : List Char) :
    (release held text).1.length + (release held text).2.toNat ≤ held.toNat + text.length := by
  have whole := length_unifyNewlines_le
  unfold release
  cases held <;> cases text with
  | nil => simp [unifyNewlines, unifyOnto]
  | cons c cs =>
      simp only [Bool.false_and, Bool.true_and, List.isEmpty_cons, Bool.not_false, if_true,
        Bool.false_eq_true, if_false]
      split
      · have := whole (c :: cs).dropLast
        have := whole ('\r' :: c :: cs).dropLast
        grind
      · have := whole (c :: cs)
        have := whole ('\r' :: c :: cs)
        grind

theorem size_feed_le {d d' : Decoder} {block : Bytes} {text : List Char}
    (h : d.feed block = .ok (text, d')) : text.length + d'.size ≤ d.size + block.length := by
  unfold feed at h
  dsimp only at h
  have scanned := Utf8.length_scan_le (d.carried ++ block)
  have inside := Utf8.offset_scan_le (d.carried ++ block)
  split at h
  · cases h
  · next text' ending _ eq =>
      have released := length_release_le d.heldReturn text'
      rw [eq] at scanned inside
      simp only [Except.ok.injEq, Prod.mk.injEq] at h
      obtain ⟨rfl, rfl⟩ := h
      simp only [size, List.length_drop, List.length_append] at scanned inside released ⊢
      omega

theorem size_finish_le {d d' : Decoder} {text : List Char} (h : d.finish = .ok (text, d')) :
    text.length + d'.size ≤ d.size := by
  unfold finish at h
  split at h
  · cases h
  · simp only [Except.ok.injEq, Prod.mk.injEq] at h
    obtain ⟨rfl, rfl⟩ := h
    cases held : d.heldReturn <;> simp [size, held]

end Decoder

end WordMachine.Text
