import WordMachine.Fault
import WordMachine.File.Operation
import WordMachine.Text.Decoder

/-!
# Text streams

A stream hands out its lines one by one and then comes to its end, where it stays. Bytes, from
memory or from a file held open, are read and decoded a block at a time, when no line is left. A
block that is no text fails the read that asked for it, and what was read of the line before it is
lost; an unfinished character at the end fails every read there.
-/

namespace WordMachine

/-- What reading a line brings. -/
inductive Reading where
  | line (text : String)
  | closed
  | failed (error : ReadError)
  | interrupted
  deriving DecidableEq, Repr

/-- What every read at the end of a stream brings. -/
inductive StreamEnd where
  | closes
  | fails (error : ReadError)
  | interrupts
  deriving DecidableEq, Repr

def StreamEnd.reading : StreamEnd → Reading
  | .closes => .closed
  | .fails error => .failed error
  | .interrupts => .interrupted

/-- Where the bytes of a stream come from. -/
inductive Source where
  | bytes (rest : Bytes)
  | file (place : Cursor)
  deriving DecidableEq, Repr

namespace Source

/-- The most bytes that are read at once. -/
def blockSize : Nat := 8192

/-- The next block, which is empty at the end only, and the source behind it. -/
def next (s : Source) (t : FileTree) : Bytes × Source :=
  match s with
  | .bytes rest => (rest.take blockSize, .bytes (rest.drop blockSize))
  | .file place => ((t.readAt place blockSize).1, .file (t.readAt place blockSize).2)

/-- A bound on the number of bytes that are left. -/
def size : Source → Nat
  | .bytes rest => rest.length
  | .file place => maxOffset - place.offset

theorem size_next (s : Source) (t : FileTree) :
    (s.next t).1.length + (s.next t).2.size = s.size := by
  cases s with
  | bytes rest => simp only [next, size, List.length_take, List.length_drop]; omega
  | file place =>
      have := t.length_readAt_le place blockSize
      simp only [next, size, FileTree.offset_readAt]
      omega

end Source

/-- The lines that were read and not handed out, what was read of the line after them, in reverse,
and where more comes from. -/
structure TextStream where
  lines : List String := []
  started : List Char := []
  source : Source := .bytes []
  decoder : Text.Decoder := {}
  ending : StreamEnd := .closes

namespace TextStream

def ofLines (lines : List String) (ending : StreamEnd) : TextStream := { lines, ending }

/-- A stream over a text, cut at line feeds. -/
def ofText (text : List Char) (ending : StreamEnd) : TextStream :=
  ofLines ((Text.streamLines text).map String.ofList) ending

/-- A stream over encoded text, in which carriage returns end lines too. -/
def ofBytes (bs : Bytes) (ending : StreamEnd) : TextStream := { source := .bytes bs, ending }

/-- A stream over a file held open, from its start. -/
def ofFile (file : Handle) : TextStream := { source := .file { file } }

def extend (s : TextStream) (text : List Char) : TextStream :=
  let pieces := Text.piecesOnto text s.started []
  { s with lines := s.lines ++ pieces.1.map String.ofList, started := pieces.2 }

/-- The stream at the end of its source. An unfinished last line counts unless it is empty. -/
def close (s : TextStream) : Option ReadError × TextStream :=
  match s.decoder.finish with
  | .error failure => (some (.undecodable failure), { s with started := [] })
  | .ok (text, decoder) =>
      let s := { s with decoder }.extend text
      (none,
        if s.lines.isEmpty && !s.started.isEmpty then
          { s with lines := [String.ofList s.started.reverse], started := [] }
        else s)

/-- The stream after blocks were read until one ends a line, or what kept it from that. -/
def fill (s : TextStream) (t : FileTree) : Option ReadError × TextStream :=
  let block := (s.source.next t).1
  let source := (s.source.next t).2
  if block.isEmpty then s.close
  else
    match s.decoder.feed block with
    | .error failure => (some (.undecodable failure), { s with source, started := [] })
    | .ok (text, decoder) =>
        let s' := { s with source, decoder }.extend text
        if s'.lines.isEmpty then s'.fill t else (none, s')
termination_by s.source.size
decreasing_by
  have := s.source.size_next t
  have : 0 < (s.source.next t).1.length := by
    cases h : (s.source.next t).1 <;> simp_all [block]
  simp only [extend]
  omega

def take (s : TextStream) : Reading × TextStream :=
  match s.lines with
  | line :: lines => (.line line, { s with lines })
  | [] => (s.ending.reading, s)

def nextLine (s : TextStream) (t : FileTree) : Reading × TextStream :=
  if s.lines.isEmpty then
    match s.fill t with
    | (some error, s) => (.failed error, s)
    | (none, s) => s.take
  else s.take

/-- A bound on the number of lines before the end. -/
def size (s : TextStream) : Nat :=
  s.lines.length + min 1 s.started.length + s.decoder.size + s.source.size

theorem size_extend_le (s : TextStream) (text : List Char) :
    (s.extend text).size ≤ s.size + text.length := by
  have := Text.length_piecesOnto_le text s.started []
  simp only [size, extend, List.length_append, List.length_map, List.length_nil] at this ⊢
  omega

theorem size_close_le (s : TextStream) : s.close.2.size ≤ s.size := by
  unfold close
  split
  · simp only [size, List.length_nil]
    omega
  · next text decoder finished =>
      have released := Text.Decoder.size_finish_le finished
      have extended := size_extend_le { s with decoder } text
      generalize { s with decoder }.extend text = s' at extended ⊢
      simp only [size] at extended ⊢
      split
      · next unended =>
          simp only [Bool.and_eq_true, List.isEmpty_iff, Bool.not_eq_true',
            List.isEmpty_eq_false_iff, ← List.length_pos_iff] at unended
          simp only [List.length_singleton, List.length_nil]
          omega
      · omega

theorem size_fill_le (s : TextStream) (t : FileTree) : (s.fill t).2.size ≤ s.size := by
  fun_induction fill s t with
  | case1 => exact size_close_le _
  | case2 s block source _ failure _ =>
      have := s.source.size_next t
      simp only [size, source, List.length_nil]
      omega
  | case3 s block source _ text decoder fed s' _ ih =>
      have := s.source.size_next t
      have := Text.Decoder.size_feed_le fed
      have := size_extend_le { s with source, decoder } text
      simp only [size, block, source, s'] at *
      omega
  | case4 s block source _ text decoder fed s' _ =>
      have := s.source.size_next t
      have := Text.Decoder.size_feed_le fed
      have := size_extend_le { s with source, decoder } text
      simp only [size, block, source, s'] at *
      omega

theorem size_take_lt {s : TextStream} {text : String} (h : s.take.1 = .line text) :
    s.take.2.size < s.size := by
  unfold take at h ⊢
  cases lines : s.lines with
  | cons line rest => simp only [size, lines, List.length_cons]; omega
  | nil => cases ending : s.ending <;> simp [lines, ending, StreamEnd.reading] at h

theorem size_nextLine_lt {s : TextStream} {t : FileTree} {text : String}
    (h : (s.nextLine t).1 = .line text) : (s.nextLine t).2.size < s.size := by
  have filled := s.size_fill_le t
  unfold nextLine at h ⊢
  by_cases none_left : s.lines.isEmpty
  · simp only [none_left, if_true] at h ⊢
    match eq : s.fill t with
    | (some error, s') => simp [eq] at h
    | (none, s') =>
        rw [eq] at filled
        simp only [eq] at h
        exact Nat.lt_of_lt_of_le (size_take_lt h) filled
  · simp only [none_left, Bool.false_eq_true, if_false] at h ⊢
    exact size_take_lt h

end TextStream

end WordMachine
