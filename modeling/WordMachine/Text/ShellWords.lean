/-!
# Words of a command line

Words are separated by spaces, tabs, carriage returns and line feeds. A backslash outside quotes
takes the next character as it is, apostrophes take everything up to the next apostrophe, and
between double quotes a backslash escapes itself and the double quote only.
-/

namespace WordMachine.Text

/-- Why a line cannot be cut into words. -/
inductive WordError where
  | openQuote
  | openEscape
  deriving DecidableEq, Repr

def WordError.message : WordError → String
  | .openQuote => "No closing quotation"
  | .openEscape => "No escaped character"

def isWordSpace (c : Char) : Bool := c = ' ' || c = '\t' || c = '\r' || c = '\n'

/-- Where the reader of a line stands. -/
inductive WordMode where
  | plain
  | escaped
  | single
  | double
  | doubleEscaped
  deriving DecidableEq, Repr

/-- The words read so far, in reverse, and the characters of the open one, if any, in reverse. -/
structure WordState where
  words : List String := []
  current : Option (List Char) := none

namespace WordState

def begin (s : WordState) : WordState := { s with current := some (s.current.getD []) }

def add (s : WordState) (c : Char) : WordState :=
  { s with current := some (c :: s.current.getD []) }

def close (s : WordState) : WordState :=
  match s.current with
  | none => s
  | some cs => { words := String.ofList cs.reverse :: s.words, current := none }

end WordState

/-- The words of a line from a mode and a state on. -/
def wordsFrom : WordMode → List Char → WordState → Except WordError (List String)
  | .plain, [], s => .ok s.close.words.reverse
  | .escaped, [], _ | .doubleEscaped, [], _ => .error .openEscape
  | .single, [], _ | .double, [], _ => .error .openQuote
  | .plain, c :: cs, s =>
      if isWordSpace c then wordsFrom .plain cs s.close
      else if c = '\\' then wordsFrom .escaped cs s
      else if c = '\'' then wordsFrom .single cs s.begin
      else if c = '"' then wordsFrom .double cs s.begin
      else wordsFrom .plain cs (s.add c)
  | .escaped, c :: cs, s => wordsFrom .plain cs (s.add c)
  | .single, c :: cs, s =>
      if c = '\'' then wordsFrom .plain cs s else wordsFrom .single cs (s.add c)
  | .double, c :: cs, s =>
      if c = '"' then wordsFrom .plain cs s
      else if c = '\\' then wordsFrom .doubleEscaped cs s
      else wordsFrom .double cs (s.add c)
  | .doubleEscaped, c :: cs, s =>
      if c = '"' || c = '\\' then wordsFrom .double cs (s.add c)
      else wordsFrom .double cs ((s.add '\\').add c)

def shellWords (line : List Char) : Except WordError (List String) := wordsFrom .plain line {}

end WordMachine.Text
