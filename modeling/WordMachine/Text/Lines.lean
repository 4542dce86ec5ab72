/-!
# Lines

Two ways of cutting a text into lines. A stream ends its lines at line feeds, after carriage
returns have been turned into line feeds where it reads bytes; a stored text is also cut at the
other characters that Unicode counts as line boundaries.
-/

namespace WordMachine.Text

/-- The text with unified line ends after `acc`, which is in reverse. -/
def unifyOnto : List Char → List Char → List Char
  | '\r' :: '\n' :: rest, acc => unifyOnto rest ('\n' :: acc)
  | '\r' :: rest, acc => unifyOnto rest ('\n' :: acc)
  | c :: rest, acc => unifyOnto rest (c :: acc)
  | [], acc => acc.reverse

/-- The text with every carriage return, alone or before a line feed, written as a line feed. -/
def unifyNewlines (cs : List Char) : List Char := unifyOnto cs []

theorem length_unifyOnto_le (cs acc : List Char) :
    (unifyOnto cs acc).length ≤ cs.length + acc.length := by
  fun_induction unifyOnto cs acc <;> grind

theorem length_unifyNewlines_le (cs : List Char) : (unifyNewlines cs).length ≤ cs.length := by
  simpa [unifyNewlines] using length_unifyOnto_le cs []

/-- The lines of a text and, in reverse, what follows the last of them, where `piece` was read of
the first line and `acc` came before it, both in reverse. -/
def piecesOnto : List Char → List Char → List (List Char) → List (List Char) × List Char
  | [], piece, acc => (acc.reverse, piece)
  | c :: rest, piece, acc =>
      if c = '\n' then piecesOnto rest [] (piece.reverse :: acc)
      else piecesOnto rest (c :: piece) acc

theorem length_piecesOnto_le (cs piece : List Char) (acc : List (List Char)) :
    (piecesOnto cs piece acc).1.length + min 1 (piecesOnto cs piece acc).2.length
      ≤ acc.length + min 1 piece.length + cs.length := by
  fun_induction piecesOnto cs piece acc <;> grind

/-- The texts that a line feed ends, in order, and what stands after the last line feed. -/
def linesAndRest (cs : List Char) : List (List Char) × List Char :=
  let (lines, piece) := piecesOnto cs [] []
  (lines, piece.reverse)

/-- A line without one carriage return at its end. -/
def dropReturn (line : List Char) : List Char :=
  match line.getLast? with
  | some '\r' => line.dropLast
  | _ => line

/-- The lines of a stream that holds the given text: an unfinished last line counts unless it is
empty, and a line loses one carriage return at its end. -/
def streamLines (cs : List Char) : List (List Char) :=
  let (lines, rest) := linesAndRest cs
  (if rest.isEmpty then lines else lines ++ [rest]).map dropReturn

/-- Whether a stored text is cut at a character: line feed to carriage return, the file, group and
record separators, next line, and the line and paragraph separators. -/
def isLineBreak (c : Char) : Bool :=
  let n := c.toNat
  (10 ≤ n && n ≤ 13) || (28 ≤ n && n ≤ 30) || n == 0x85 || n == 0x2028 || n == 0x2029

/-- The lines of a stored text, where `piece` was read of the first one and `acc` came before it,
both in reverse. -/
def storedOnto : List Char → List Char → List (List Char) → List (List Char)
  | [], piece, acc => (if piece.isEmpty then acc else piece.reverse :: acc).reverse
  | c :: rest, piece, acc =>
      if isLineBreak c then storedOnto rest [] (piece.reverse :: acc)
      else storedOnto rest (c :: piece) acc

/-- The lines of a stored text whose carriage returns have been unified. -/
def storedLines (cs : List Char) : List (List Char) := storedOnto cs [] []

end WordMachine.Text
