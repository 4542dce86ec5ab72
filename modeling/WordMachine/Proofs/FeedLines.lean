import WordMachine.Input.Feed
import WordMachine.Proofs.StreamLines

/-!
# Lines of feeds

The lines that a feed has: those of its text, those that its editor makes of keys, or those of all
its feeds, one feed after the other. A feed that can be read hands them out in order, whatever else
becomes of the host meanwhile than that the files it reads from are changed.
-/

namespace WordMachine

namespace LineEditor

/-- The lines that an editor makes of keys, up to the end of the input. -/
inductive Types (editor : LineEditor) : List Char → List String → Prop where
  | line {keys later : List Char} {text : String} {lines : List String}
      (edited : editor.edit keys = (some text, later)) (rest : Types editor later lines) :
      Types editor keys (text :: lines)
  | closed {keys later : List Char} (edited : editor.edit keys = (none, later)) :
      Types editor keys []

/-- Keys that neither end a line nor the input. -/
structure Typing (keys : List Char) : Prop where
  plain : ∀ key ∈ keys, isEnter key = false ∧ key ≠ interruptKey
  starts : keys.head? ≠ some endKey

variable {keys later : List Char} {lines : List String}

theorem typeLine_onto (plain : ∀ key ∈ keys, isEnter key = false ∧ key ≠ interruptKey)
    {typed : List Char} (begun : typed ≠ []) (later : List Char) :
    typeLine (keys ++ later) typed =
      typeLine later ((keys.filter (· ≠ endKey)).reverse ++ typed) := by
  induction keys generalizing typed with
  | nil => rfl
  | cons key keys ih =>
      obtain ⟨⟨no_enter, no_interrupt⟩, rest⟩ := List.forall_mem_cons.mp plain
      rw [List.cons_append, typeLine, no_enter, if_neg Bool.false_ne_true, if_neg no_interrupt]
      by_cases ends : key = endKey
      · rw [if_pos ends, if_neg (by simpa using begun), ih rest begun]
        simp [ends]
      · rw [if_neg ends, ih rest (List.cons_ne_nil key typed)]
        simp [ends]

theorem typeLine_append (typing : Typing keys) (later : List Char) :
    typeLine (keys ++ later) [] = typeLine later (keys.filter (· ≠ endKey)).reverse := by
  cases keys with
  | nil => rfl
  | cons key keys =>
      obtain ⟨⟨no_enter, no_interrupt⟩, rest⟩ := List.forall_mem_cons.mp typing.plain
      have no_end : key ≠ endKey := fun is => typing.starts (is ▸ rfl)
      rw [List.cons_append, typeLine, no_enter, if_neg Bool.false_ne_true, if_neg no_interrupt,
        if_neg no_end, typeLine_onto rest (List.cons_ne_nil key [])]
      simp [no_end]

theorem edit_plain (keys : List Char) : plain.edit keys = typeLine keys [] := rfl

/-- At a plain editor, Enter ends a line. The end key counts on an empty line only. -/
theorem plain_types_enter {key : Char} (typing : Typing keys) (enter : isEnter key = true)
    (rest : plain.Types later lines) :
    plain.Types (keys ++ key :: later) (String.ofList (keys.filter (· ≠ endKey)) :: lines) := by
  refine .line ?_ rest
  rw [edit_plain, typeLine_append typing, typeLine, if_pos enter, List.reverse_reverse]

/-- The interrupt key ends the input, and what is typed in front of it is no line. -/
theorem plain_types_interrupted (typing : Typing keys) :
    plain.Types (keys ++ interruptKey :: later) [] := by
  have edited : plain.edit (keys ++ interruptKey :: later) = (none, later) := by
    rw [edit_plain, typeLine_append typing, typeLine, if_neg (by decide), if_pos rfl]
  exact .closed edited

theorem plain_types_ended : plain.Types (endKey :: later) [] := by
  have edited : plain.edit (endKey :: later) = (none, later) := by
    rw [edit_plain, typeLine, if_neg (by decide), if_neg (by decide), if_pos rfl]
    rfl
  exact .closed edited

/-- A line that is not ended is none. -/
theorem plain_types_left (typing : Typing keys) : plain.Types keys [] := by
  have typed := typeLine_append typing []
  rw [List.append_nil] at typed
  have edited : plain.edit keys = (none, []) := by
    rw [edit_plain, typed, typeLine]
  exact .closed edited

end LineEditor

namespace Console

variable {line : String} {lines : List String}

theorem nextLine_of_types {c : Console} (types : c.editor.Types c.keys (line :: lines)) (h : Host) :
    (c.nextLine h).1 = .line line ∧ (c.nextLine h).2.1.editor = c.editor ∧
      c.editor.Types (c.nextLine h).2.1.keys lines := by
  cases types with
  | line edited rest =>
      unfold nextLine
      rw [edited]
      exact ⟨rfl, rfl, rest⟩

theorem nextLine_of_types_nil {c : Console} (types : c.editor.Types c.keys []) (h : Host) :
    (c.nextLine h).1 = .closed := by
  cases types with
  | closed edited =>
      unfold nextLine
      rw [edited]

theorem files_of_closed {c : Console} {h : Host} (closed : (c.nextLine h).1 = .closed) :
    (c.nextLine h).2.2.files = h.files := by
  unfold nextLine at *
  split at closed
  · rfl
  · cases closed

end Console

namespace Feed

variable {feed next : Feed} {feeds : List Feed} {h h' : Host} {reading : Reading}
  {content : Handle → Bytes} {lines front back : List String}

mutual

/-- A feed that comes to its end leaves the files alone. -/
theorem files_of_closed : ∀ {feed : Feed} {h : Host}, (feed.nextLine h).1 = .closed →
    (feed.nextLine h).2.2.files = h.files
  | .stream s, h, _ => by rw [nextLine_stream]
  | .console c, h, closed => by
      rw [nextLine_console] at closed ⊢
      exact Console.files_of_closed closed
  | .chain feeds, h, closed => by
      rw [nextLine_chain] at closed ⊢
      exact files_of_readFirst closed

theorem files_of_readFirst : ∀ {feeds : List Feed} {h : Host}, (readFirst feeds h).1 = .closed →
    (readFirst feeds h).2.2.files = h.files
  | [], h, _ => by rw [readFirst_nil]
  | feed :: rest, h, closed => by
      rcases reads : feed.nextLine h with ⟨reading, next, h'⟩
      by_cases ended : reading = .closed
      · subst ended
        have ends : (feed.nextLine h).1 = .closed := by rw [reads]
        have kept := files_of_closed ends
        rw [readFirst_of_closed rest reads] at closed ⊢
        rw [reads] at kept
        exact (files_of_readFirst closed).trans kept
      · rw [readFirst_of_goes_on rest ended reads] at closed
        exact absurd closed ended

end

open Text (Cut Shorn unifyNewlines) in
/-- The lines of a feed that is about to be read, when the files held open have the given contents.
Those of a chain are those of its feeds, one feed after the other. -/
inductive Has (content : Handle → Bytes) : Feed → List String → Prop where
  | text {text : List Char} {pieces : List (List Char)} {lines : List String}
      (cut : Cut pieces text) (shorn : List.Forall₂ Shorn pieces (lines.map String.toList)) :
      Has content (.stream (.ofText text .closes)) lines
  | bytes {bs : Bytes} {text : List Char} {lines : List String}
      (decoded : Text.Utf8.decode bs = .ok text)
      (cut : Cut (lines.map String.toList) (unifyNewlines text)) :
      Has content (.stream (.ofBytes bs .closes)) lines
  | file {file : Handle} {text : List Char} {lines : List String}
      (fits : (content file).length ≤ maxOffset)
      (decoded : Text.Utf8.decode (content file) = .ok text)
      (cut : Cut (lines.map String.toList) (unifyNewlines text)) :
      Has content (.stream (.ofFile file)) lines
  | console {c : Console} {lines : List String} (types : c.editor.Types c.keys lines) :
      Has content (.console c) lines
  | none : Has content (.chain []) []
  | chain {feed : Feed} {feeds : List Feed} {front back : List String}
      (first : Has content feed front) (rest : Has content (.chain feeds) back) :
      Has content (.chain (feed :: feeds)) (front ++ back)

/-- The feed hands the given lines out and then comes to its end, whatever else happens to the host
than that the files held open are changed. -/
def Yields (content : Handle → Bytes) : List String → Feed → Prop
  | [], feed => ∀ h : Host, h.files.held = content → (feed.nextLine h).1 = .closed
  | line :: lines, feed => ∀ h : Host, h.files.held = content →
      (feed.nextLine h).1 = .line line ∧ Yields content lines (feed.nextLine h).2.1

theorem yields_stream {s : TextStream} (brings : s.Brings content lines) :
    Yields content lines (.stream s) := by
  induction lines generalizing s with
  | nil =>
      intro h same
      rw [nextLine_stream]
      exact (brings.nextLine_nil same).1
  | cons line lines ih =>
      intro h same
      obtain ⟨reads, rest⟩ := brings.nextLine same
      rw [nextLine_stream]
      exact ⟨reads, ih rest⟩

theorem yields_console {c : Console} (types : c.editor.Types c.keys lines) :
    Yields content lines (.console c) := by
  induction lines generalizing c with
  | nil =>
      intro h _
      rw [nextLine_console]
      exact Console.nextLine_of_types_nil types h
  | cons line lines ih =>
      intro h _
      obtain ⟨reads, same, rest⟩ := Console.nextLine_of_types types h
      rw [nextLine_console]
      exact ⟨reads, ih (same ▸ rest)⟩

/-- A feed that is at its end makes no difference in front of others. -/
theorem Yields.pass (first : Yields content [] feed) (rest : Yields content lines (.chain feeds)) :
    Yields content lines (.chain (feed :: feeds)) := by
  have passed (h : Host) (same : h.files.held = content) :
      ∃ h' : Host, h'.files.held = content ∧
        (chain (feed :: feeds)).nextLine h = (chain feeds).nextLine h' := by
    have closed := first h same
    have kept := files_of_closed closed
    rcases reads : feed.nextLine h with ⟨reading, next, h'⟩
    rw [reads] at closed kept
    obtain rfl : reading = .closed := closed
    refine ⟨h', ?_, ?_⟩
    · rw [show h'.files = h.files from kept]
      exact same
    · rw [nextLine_chain, nextLine_chain, readFirst_of_closed feeds reads]
  cases lines with
  | nil =>
      intro h same
      obtain ⟨h', same', reads⟩ := passed h same
      rw [reads]
      exact rest h' same'
  | cons line lines =>
      intro h same
      obtain ⟨h', same', reads⟩ := passed h same
      rw [reads]
      exact rest h' same'

theorem Yields.chain (first : Yields content front feed)
    (rest : Yields content back (.chain feeds)) :
    Yields content (front ++ back) (.chain (feed :: feeds)) := by
  induction front generalizing feed with
  | nil => exact first.pass rest
  | cons line front ih =>
      intro h same
      obtain ⟨reads, goes_on⟩ := first h same
      rcases read : feed.nextLine h with ⟨reading, next, h'⟩
      rw [read] at reads goes_on
      obtain rfl : reading = .line line := reads
      rw [nextLine_chain, readFirst_of_goes_on feeds Reading.noConfusion read]
      exact ⟨rfl, ih goes_on⟩

/-- A feed hands out the lines that it has. -/
theorem Has.yields (has : Has content feed lines) : Yields content lines feed := by
  induction has with
  | text cut shorn => exact yields_stream (TextStream.brings_ofText cut shorn)
  | bytes decoded cut => exact yields_stream (TextStream.brings_ofBytes decoded cut)
  | file fits decoded cut => exact yields_stream (TextStream.brings_ofFile fits decoded cut)
  | console types => exact yields_console types
  | none =>
      intro h _
      rw [nextLine_chain, readFirst_nil]
  | chain first rest ih_first ih_rest => exact ih_first.chain ih_rest

end Feed

end WordMachine
