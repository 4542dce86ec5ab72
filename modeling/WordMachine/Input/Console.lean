import WordMachine.Input.History
import WordMachine.Input.Stream

/-!
# The console

Lines typed at a terminal. What the keys type is up to a line editor, of which nothing is relied on
but that a line takes at least one key; it may end the input instead, for one read. Lines typed are
remembered.
-/

namespace WordMachine

open Text (Raw)

/-- What makes lines of keys. Its lines are texts of characters; a terminal that sends bytes which
are no text is left out. -/
structure LineEditor where
  /-- The line that keys type, or nothing where they end the input, and the keys left. -/
  edit : List Char → Option String × List Char
  consumes : ∀ {keys : List Char} {text : String},
    (edit keys).1 = some text → (edit keys).2.length < keys.length

namespace LineEditor

def isEnter (key : Char) : Bool := key = '\r' || key = '\n'

def interruptKey : Char := '\x03'

def endKey : Char := '\x04'

/-- The line that the keys type on top of what is typed already, newest key first, and the keys
left. -/
def typeLine : List Char → List Char → Option String × List Char
  | [], _ => (none, [])
  | key :: keys, typed =>
      if isEnter key then (some (String.ofList typed.reverse), keys)
      else if key = interruptKey then (none, keys)
      else if key = endKey then if typed.isEmpty then (none, keys) else typeLine keys typed
      else typeLine keys (key :: typed)

theorem length_typeLine_lt {keys typed : List Char} {text : String}
    (h : (typeLine keys typed).1 = some text) :
    (typeLine keys typed).2.length < keys.length := by
  fun_induction typeLine keys typed <;> simp_all <;> omega

/-- The editor of a terminal at which only texts, Enter, the interrupt key and the end key are
typed. Enter ends a line; the interrupt key, or the end key on an empty line, ends the input. -/
def plain : LineEditor where
  edit keys := typeLine keys []
  consumes := length_typeLine_lt

end LineEditor

/-- The keys still to be read, and the history that lines go to, which holds texts of characters
only. -/
@[ext] structure Console where
  editor : LineEditor
  keys : List Char
  history : Option History := none
  encodable : ∀ s ∈ history, s.Encodable := by simp

namespace Console

/-- The console with a line remembered. The encoder does not refuse it, as all the lines are texts
of characters. -/
def remember (c : Console) (h : Host) (text : String) : Console where
  editor := c.editor
  keys := c.keys
  history := c.history.map fun s => (s.append h (Raw.ofString text)).2.1
  encodable := by
    intro s mem
    obtain ⟨earlier, is, rfl⟩ := Option.map_eq_some_iff.mp mem
    exact (c.encodable earlier is).append h text

/-- The host after a line is remembered. -/
def keep (c : Console) (h : Host) (text : String) : Host :=
  c.history.elim h fun s => (s.append h (Raw.ofString text)).1

def nextLine (c : Console) (h : Host) : Reading × Console × Host :=
  match c.editor.edit c.keys with
  | (none, keys) => (.closed, { c with keys }, h.log .debug .console "console input closed")
  | (some text, keys) => (.line text, { c with keys }.remember h text, c.keep h text)

/-- A console whose history is kept at a path. -/
def openAt (editor : LineEditor) (keys : List Char) (h : Host) (path : Path) (limit : Nat)
    (homes : Homes) : Except Failure (Host × Console) :=
  match opened : History.openAt h path limit homes with
  | .error e => .error e
  | .ok (h, history) =>
      .ok (h, { editor, keys, history
                encodable := by simpa using History.encodable_openAt opened })

def size (c : Console) : Nat := c.keys.length

theorem size_nextLine_lt {c : Console} {h : Host} {text : String}
    (read : (c.nextLine h).1 = .line text) : (c.nextLine h).2.1.size < c.size := by
  unfold nextLine at *
  split at read
  · cases read
  · next typed keys edited =>
      have made : (c.editor.edit c.keys).1 = some typed := by rw [edited]
      have shorter := c.editor.consumes made
      rw [edited] at shorter
      exact shorter

end Console

end WordMachine
