import WordMachine.Input.Console

/-!
# Feeds

Where lines of input come from: a stream, the console, or several feeds one after the other. A
chain moves on when a feed reports its end, and never goes back to it.
-/

namespace WordMachine

inductive Feed where
  | stream (stream : TextStream)
  | console (console : Console)
  | chain (feeds : List Feed)

namespace Feed

mutual

/-- A bound on the number of lines that a feed still has. -/
def size : Feed → Nat
  | .stream s => s.size
  | .console c => c.size
  | .chain feeds => sizes feeds

def sizes : List Feed → Nat
  | [] => 0
  | feed :: rest => feed.size + sizes rest

end

mutual

/-- One line of a feed, with the feed and the host after it was read. -/
def nextLine : Feed → Host → Reading × Feed × Host
  | .stream s, h =>
      let (reading, s) := s.nextLine h.files
      (reading, .stream s, h)
  | .console c, h =>
      let (reading, c, h) := c.nextLine h
      (reading, .console c, h)
  | .chain feeds, h =>
      let (reading, feeds, h) := readFirst feeds h
      (reading, .chain feeds, h)

/-- One line of the first feed that is not at its end; those that are drop out. -/
def readFirst : List Feed → Host → Reading × List Feed × Host
  | [], h => (.closed, [], h)
  | feed :: rest, h =>
      match feed.nextLine h with
      | (.closed, _, h) => readFirst rest h
      | (reading, feed, h) => (reading, feed :: rest, h)

end

mutual

/-- The feed with more keys typed at its consoles. -/
def typed (keys : List Char) : Feed → Feed
  | .stream s => .stream s
  | .console c => .console { c with keys := c.keys ++ keys }
  | .chain feeds => .chain (typedAll keys feeds)

def typedAll (keys : List Char) : List Feed → List Feed
  | [] => []
  | feed :: rest => feed.typed keys :: typedAll keys rest

end

@[simp] theorem readFirst_nil (h : Host) : readFirst [] h = (.closed, [], h) := by rw [readFirst]

variable {feed next : Feed} {h h' : Host} {reading : Reading}

theorem nextLine_stream (s : TextStream) (h : Host) :
    (stream s).nextLine h = ((s.nextLine h.files).1, .stream (s.nextLine h.files).2, h) := by
  rw [nextLine]

theorem nextLine_console (c : Console) (h : Host) :
    (console c).nextLine h =
      ((c.nextLine h).1, .console (c.nextLine h).2.1, (c.nextLine h).2.2) := by
  rw [nextLine]

theorem nextLine_chain (feeds : List Feed) (h : Host) :
    (chain feeds).nextLine h =
      ((readFirst feeds h).1, .chain (readFirst feeds h).2.1, (readFirst feeds h).2.2) := by
  rw [nextLine]

theorem readFirst_of_closed (rest : List Feed) (reads : feed.nextLine h = (.closed, next, h')) :
    readFirst (feed :: rest) h = readFirst rest h' := by
  rw [readFirst, reads]

theorem readFirst_of_goes_on (rest : List Feed) (goes_on : reading ≠ .closed)
    (reads : feed.nextLine h = (reading, next, h')) :
    readFirst (feed :: rest) h = (reading, next :: rest, h') := by
  rw [readFirst, reads]
  cases reading with
  | closed => exact absurd rfl goes_on
  | line text | failed e | interrupted => rfl

/-- A reading of feeds passes those that are at their end and is answered by the first that is
not. -/
@[elab_as_elim]
theorem readFirst_induction {motive : List Feed → Host → Prop} (none : ∀ h, motive [] h)
    (passes : ∀ feed rest h next h', feed.nextLine h = (.closed, next, h') →
      readFirst (feed :: rest) h = readFirst rest h' → motive rest h' → motive (feed :: rest) h)
    (answers : ∀ feed rest h reading next h', reading ≠ .closed →
      feed.nextLine h = (reading, next, h') →
      readFirst (feed :: rest) h = (reading, next :: rest, h') → motive (feed :: rest) h)
    (feeds : List Feed) (h : Host) : motive feeds h := by
  induction feeds generalizing h with
  | nil => exact none h
  | cons feed rest ih =>
      rcases reads : feed.nextLine h with ⟨reading, next, h'⟩
      by_cases ended : reading = .closed
      · subst ended
        exact passes feed rest h next h' reads (readFirst_of_closed rest reads) (ih h')
      · exact answers feed rest h reading next h' ended reads
          (readFirst_of_goes_on rest ended reads)

mutual

theorem size_nextLine_lt : ∀ {feed : Feed} {h : Host} {text : String},
    (feed.nextLine h).1 = .line text → (feed.nextLine h).2.1.size < feed.size
  | .stream s, h, text, read => by
      simp only [nextLine, size] at read ⊢
      exact TextStream.size_nextLine_lt read
  | .console c, h, text, read => by
      simp only [nextLine, size] at read ⊢
      exact Console.size_nextLine_lt read
  | .chain feeds, h, text, read => by
      simp only [nextLine, size] at read ⊢
      exact sizes_readFirst_lt read

theorem sizes_readFirst_lt : ∀ {feeds : List Feed} {h : Host} {text : String},
    (readFirst feeds h).1 = .line text → sizes (readFirst feeds h).2.1 < sizes feeds
  | [], h, text, read => by simp at read
  | feed :: rest, h, text, read => by
      rw [readFirst] at read ⊢
      split at read
      · next _ h' eq =>
          have := sizes_readFirst_lt read
          simp only [sizes]
          omega
      · next reading next_ h' _ eq =>
          have first : (feed.nextLine h).1 = .line text := by rw [eq]; exact read
          have := size_nextLine_lt first
          rw [eq] at this
          dsimp only at this
          simp only [sizes]
          omega

end

end Feed

end WordMachine
