import Mathlib.Logic.Function.Iterate
import WordMachine.Proofs.CutText
import WordMachine.Proofs.Stepping

/-!
# What the guest hears

Lines of a text stream reach the guest in order, each fitted to sixteen bits and ended by a line
feed, except for those that name a command: these are run in their place. A command that gives up
the waiting instruction answers one request with nothing.
-/

namespace WordMachine

namespace Text

/-- A text in which the given lines stand one after the other. Each is ended by a line feed, which a
carriage return may precede; the last one need not be ended unless it is empty. -/
inductive Presents : List (List Char) → List Char → Prop where
  | none : Presents [] []
  | last {line : List Char} (filled : line ≠ []) (plain : '\n' ∉ line)
      (open_ended : line.getLast? ≠ some '\r') : Presents [line] line
  | feed {line : List Char} {lines : List (List Char)} {text : List Char} (plain : '\n' ∉ line)
      (open_ended : line.getLast? ≠ some '\r') (rest : Presents lines text) :
      Presents (line :: lines) (line ++ '\n' :: text)
  | returned {line : List Char} {lines : List (List Char)} {text : List Char}
      (plain : '\n' ∉ line) (open_ended : line.getLast? ≠ some '\r')
      (rest : Presents lines text) :
      Presents (line :: lines) (line ++ '\r' :: '\n' :: text)

theorem Presents.cut {lines : List (List Char)} {text : List Char}
    (presents : Presents lines text) :
    ∃ pieces, Cut pieces text ∧ List.Forall₂ Shorn pieces lines := by
  induction presents with
  | none => exact ⟨[], .none, .nil⟩
  | last filled plain open_ended =>
      exact ⟨_, .last filled plain, .cons (.kept open_ended) .nil⟩
  | feed plain open_ended rest ih =>
      obtain ⟨pieces, cut, shorn⟩ := ih
      exact ⟨_, .feed plain cut, .cons (.kept open_ended) shorn⟩
  | @returned line lines text plain open_ended rest ih =>
      obtain ⟨pieces, cut, shorn⟩ := ih
      have plain' : '\n' ∉ line ++ ['\r'] := by simpa using plain
      have whole := Cut.feed plain' cut
      rw [List.append_assoc, List.singleton_append] at whole
      exact ⟨_, whole, .cons .returned shorn⟩

theorem streamLines_of_presents {lines : List (List Char)} {text : List Char}
    (presents : Presents lines text) : streamLines text = lines := by
  obtain ⟨pieces, cut, shorn⟩ := presents.cut
  exact streamLines_of_cut cut shorn

end Text

/-- Whether the first word of a line is exactly the name of a command. -/
def isCommandLine (line : String) : Bool :=
  (Command.ofName? (String.ofList (Text.firstWord line.toList))).isSome

/-- Every command has a name that starts with an exclamation mark. -/
theorem Command.ofName?_of_unmarked {cs : List Char} (unmarked : cs.head? ≠ some '!') :
    ofName? (String.ofList cs) = none := by
  cases found : ofName? (String.ofList cs) with
  | none => rfl
  | some c =>
      have name : c.name = String.ofList cs := by simpa using List.find?_some found
      have marked : c.name.toList.head? = some '!' := by cases c <;> decide
      rw [name, String.toList_ofList] at marked
      exact absurd marked unmarked

theorem isCommandLine_eq (line : String) :
    isCommandLine line = (Command.ofName? (commandWord line)).isSome := by
  unfold isCommandLine commandWord
  split
  · next rest word => rw [word]
  · next unmarked =>
      have head : (Text.firstWord line.toList).head? ≠ some '!' := by
        intro head
        cases word : Text.firstWord line.toList with
        | nil => simp [word] at head
        | cons c rest =>
            obtain rfl : c = '!' := by simpa [word] using head
            exact unmarked rest word
      rw [Command.ofName?_of_unmarked head]
      rfl

/-- Something that happens at the input: a command is run, or a request is answered. -/
inductive InputEvent where
  | ran (call : Call)
  | gave (delivery : Delivery)

namespace InputEvent

def call? : InputEvent → Option Call
  | ran c => some c
  | gave _ => none

/-- The code of the character that is given. -/
def code? : InputEvent → Option Nat
  | gave (.char unit) => some unit.toNat
  | _ => none

def isPreemption : InputEvent → Bool
  | gave .preempted => true
  | _ => false

end InputEvent

/-- What happens while a character is asked for `n` times. -/
def Session.inputEvents (s : Session) : Nat → List InputEvent
  | 0 => []
  | n + 1 => s.calls.map .ran ++ .gave s.nextChar.2 :: s.nextChar.1.inputEvents n

namespace Session

/-- One character is asked for: either the next one of the current line, with no command run, or the
first one that a search brings, on which the listed commands are run. -/
inductive Asks (s : Session) : List Call → Session × Delivery → Prop where
  | given {c : Char} {rest : List Char} (pending : s.debugger.pending = c :: rest) :
      Asks s [] (s.mapDebugger fun d => { d with pending := rest }, .char (UInt16.ofNat c.toNat))
  | searched {calls : List Call} {result : Feed × Debugger × GuestLine}
      (waiting : s.debugger.pending = [])
      (awaits : Awaits s.feed s.flushTrace.debugger calls result) :
      Asks s calls (s.flushTrace.deliver result)

/-- Characters are asked for one after the other, and commands are run meanwhile, each of them on
the debugger that the one before it left. -/
inductive Happens : Session → List InputEvent → Session → Prop where
  | none {s : Session} : Happens s [] s
  | asked {s t u : Session} {calls : List Call} {delivery : Delivery} {events : List InputEvent}
      (asks : s.Asks calls (t, delivery)) (rest : Happens t events u) :
      Happens s (calls.map .ran ++ .gave delivery :: events) u

theorem asks (s : Session) : s.Asks s.calls s.nextChar := by
  cases pending : s.debugger.pending with
  | cons c rest =>
      rw [calls_of_pending pending, nextChar_of_pending pending]
      exact .given pending
  | nil =>
      rw [calls_of_waiting pending, nextChar_of_waiting pending]
      exact .searched pending (awaits _ _)

/-- The commands that are listed are those that are run. -/
theorem happens (s : Session) (n : Nat) :
    s.Happens (s.inputEvents n) ((fun t : Session => t.nextChar.1)^[n] s) := by
  induction n generalizing s with
  | zero => exact .none
  | succ n ih =>
      rw [inputEvents, Function.iterate_succ_apply]
      exact .asked s.asks (ih s.nextChar.1)

end Session

/-- A line as the guest hears it. -/
def heardLine (line : String) : List Char := fitLine line.toList ++ ['\n']

def giveAll (line : List Char) : List InputEvent :=
  line.map fun c => .gave (.char (UInt16.ofNat c.toNat))

/-- What happens at the input while lines are read, from the first of them to the last. -/
inductive Heard : List String → List InputEvent → Prop where
  | none : Heard [] []
  | guest {line : String} {lines : List String} {events : List InputEvent}
      (guest : isCommandLine line = false) (rest : Heard lines events) :
      Heard (line :: lines) (giveAll (heardLine line) ++ events)
  | passed {lines : List String} {events : List InputEvent} (c : Call)
      (command : isCommandLine c.line = true) (waiting : c.before.pending = [])
      (passed : c.command = .halt ∨ c.command = .load → ¬c.Succeeds) (rest : Heard lines events) :
      Heard (c.line :: lines) (.ran c :: events)
  | preempted {lines : List String} {events : List InputEvent} (c : Call)
      (command : isCommandLine c.line = true) (waiting : c.before.pending = [])
      (preempting : c.command = .halt ∨ c.command = .load) (succeeds : c.Succeeds)
      (rest : Heard lines events) :
      Heard (c.line :: lines) (.ran c :: .gave .preempted :: events)

/-- What the guest is given when its search for a line ends. -/
def GuestLine.events : GuestLine → List InputEvent
  | .line text => giveAll (heardLine text)
  | .preempted => [.gave .preempted]
  | .failed _ | .interrupted => []

/-- The search for the guest's next line takes lines off the stream up to one that it hears, one
that preempts, or the end. -/
structure Searched (lines : List String) (calls : List Call) (result : Feed × Debugger × GuestLine)
    (rest : List String) : Prop where
  feed : result.1 = Feed.ofLines rest
  waiting : result.2.1.pending = []
  heard : ∀ events, Heard rest events →
    Heard lines (calls.map .ran ++ (result.2.2.events ++ events))
  outcome : result.2.2 = .failed .inputClosed ∧ rest = [] ∨ rest.length < lines.length ∧
    (result.2.2 = .preempted ∨ ∃ text, result.2.2 = .line text)

theorem isCommandLine_of_word {line : String} {command : Command}
    (word : Command.ofName? (commandWord line) = some command) : isCommandLine line = true := by
  rw [isCommandLine_eq, word]
  rfl

theorem Awaits.searched {feed : Feed} {d : Debugger} {calls : List Call}
    {result : Feed × Debugger × GuestLine} (h : Awaits feed d calls result) {lines : List String}
    (stream : feed = Feed.ofLines lines) (waiting : d.pending = []) :
    ∃ rest, Searched lines calls result rest := by
  induction h generalizing lines with
  | @closed feed next d host reads =>
      subst stream
      cases lines with
      | cons line lines => simp at reads
      | nil =>
          obtain ⟨rfl, rfl⟩ : Feed.ofLines [] = next ∧ d.host = host := by simpa using reads
          exact ⟨[], rfl, waiting, fun _ heard => heard, .inl ⟨rfl, rfl⟩⟩
  | failed reads => subst stream; cases lines <;> simp at reads
  | interrupted reads => subst stream; cases lines <;> simp at reads
  | @line feed next d host text reads word =>
      subst stream
      cases lines with
      | nil => simp at reads
      | cons line lines =>
          obtain ⟨rfl, rfl, rfl⟩ : line = text ∧ Feed.ofLines lines = next ∧ d.host = host := by
            simpa using reads
          have guest : isCommandLine line = false := by rw [isCommandLine_eq, word]; rfl
          exact ⟨lines, rfl, waiting, fun _ heard => .guest guest heard,
            .inr ⟨Nat.lt_succ_self _, .inr ⟨line, rfl⟩⟩⟩
  | @preempted feed next d host text c reads word asked before preempts =>
      subst stream
      cases lines with
      | nil => simp at reads
      | cons line lines =>
          obtain ⟨rfl, rfl, rfl⟩ : line = text ∧ Feed.ofLines lines = next ∧ d.host = host := by
            simpa using reads
          obtain rfl := asked
          have begun : c.before.pending = [] := by rw [before]; exact waiting
          have kind := (Call.preempted_after_iff (by rw [before])).mp preempts
          exact ⟨lines, rfl, Call.pending_after begun,
            fun _ heard => .preempted c (isCommandLine_of_word word) begun kind.1 kind.2 heard,
            .inr ⟨Nat.lt_succ_self _, .inl rfl⟩⟩
  | @command feed next d host text c calls result reads word asked before stays rest ih =>
      subst stream
      cases lines with
      | nil => simp at reads
      | cons line lines =>
          obtain ⟨rfl, rfl, rfl⟩ : line = text ∧ Feed.ofLines lines = next ∧ d.host = host := by
            simpa using reads
          obtain rfl := asked
          have begun : c.before.pending = [] := by rw [before]; exact waiting
          have kind : c.command = .halt ∨ c.command = .load → ¬c.Succeeds := by
            intro kind succeeds
            have preempts := (Call.preempted_after_iff (by rw [before])).mpr ⟨kind, succeeds⟩
            rw [stays] at preempts
            cases preempts
          obtain ⟨left, feed, waiting, heard, outcome⟩ := ih rfl (Call.pending_after begun)
          exact ⟨left, feed, waiting,
            fun events later => .passed c (isCommandLine_of_word word) begun kind
              (heard events later),
            outcome.imp_right fun found => ⟨Nat.lt_succ_of_lt found.1, found.2⟩⟩

namespace Session

theorem inputEvents_of_pending {s : Session} {cs : List Char} (pending : s.debugger.pending = cs)
    (n : Nat) :
    s.inputEvents (cs.length + n) =
      giveAll cs ++ (s.mapDebugger fun d => { d with pending := [] }).inputEvents n := by
  induction cs generalizing s with
  | nil =>
      have same : (s.mapDebugger fun d => { d with pending := [] }) = s := by
        rw [← pending]
        rfl
      rw [same]
      simp [giveAll]
  | cons c cs ih =>
      have next := nextChar_of_pending pending
      rw [List.length_cons, Nat.add_right_comm, inputEvents, calls_of_pending pending, next]
      rw [ih rfl]
      rfl

/-- A line that is found is given whole, and the guest then waits again. -/
theorem inputEvents_of_line {s : Session} {feed : Feed} {d : Debugger} {text : String}
    (waiting : s.debugger.pending = [])
    (found : awaitLine s.feed s.flushTrace.debugger = (feed, d, .line text)) :
    ∃ t : Session, t.feed = feed ∧ t.debugger.pending = [] ∧ ∀ n,
      s.inputEvents ((heardLine text).length + n) =
        s.calls.map .ran ++ (giveAll (heardLine text) ++ t.inputEvents n) := by
  have next := nextChar_of_waiting waiting
  rw [found, deliver] at next
  obtain ⟨c, cs, line⟩ : ∃ c cs, fitLine text.toList ++ ['\n'] = c :: cs :=
    List.exists_cons_of_ne_nil (by simp)
  have given : s.nextChar.2 = .char (UInt16.ofNat c.toNat) := by
    rw [next]
    simp only [line, List.head_cons]
  have feed_next : s.nextChar.1.feed = feed := by rw [next]
  have pending : s.nextChar.1.debugger.pending = cs := by
    rw [next]
    simp only [line, List.tail_cons]
  refine ⟨s.nextChar.1.mapDebugger fun d => { d with pending := [] }, feed_next, rfl, ?_⟩
  intro n
  rw [heardLine, line, List.length_cons, Nat.add_right_comm, inputEvents, given,
    inputEvents_of_pending pending]
  rfl

/-- The guest either comes to the end of the stream, or reads on from a shorter one. -/
theorem inputEvents_round {s : Session} {lines : List String} (feed : s.feed = Feed.ofLines lines)
    (waiting : s.debugger.pending = []) :
    ∃ (t : Session) (m : Nat) (rest : List String) (events : List InputEvent),
      t.feed = Feed.ofLines rest ∧ t.debugger.pending = [] ∧
      (∀ later, Heard rest later → Heard lines (events ++ later)) ∧
      (rest = [] ∧ (∀ n, s.inputEvents (n + 1) =
          events ++ .gave (.failed .inputClosed) :: t.inputEvents n) ∨
        rest.length < lines.length ∧ ∀ n, s.inputEvents (m + n) = events ++ t.inputEvents n) := by
  obtain ⟨host, flushed⟩ := s.flushTrace_debugger
  have waiting' : s.flushTrace.debugger.pending = [] := by rw [flushed, waiting]
  obtain ⟨rest, left, begun, heard, outcome⟩ :=
    (awaits s.feed s.flushTrace.debugger).searched feed waiting'
  rw [← calls_of_waiting waiting] at heard
  have next := nextChar_of_waiting waiting
  rcases found : awaitLine s.feed s.flushTrace.debugger with ⟨feed', d, line⟩
  rw [found] at left begun heard outcome next
  rcases outcome with ⟨rfl, rfl⟩ | ⟨shorter, rfl | ⟨text, rfl⟩⟩
  · refine ⟨s.nextChar.1, 0, [], s.calls.map .ran, by rw [next]; exact left,
      by rw [next]; exact begun, heard, .inl ⟨rfl, ?_⟩⟩
    intro n
    rw [inputEvents, next]
    rfl
  · refine ⟨s.nextChar.1, 1, rest, s.calls.map .ran ++ [.gave .preempted], by rw [next]; exact left,
      by rw [next]; exact begun, ?_, .inr ⟨shorter, ?_⟩⟩
    · intro later h
      rw [List.append_assoc]
      exact heard later h
    · intro n
      rw [Nat.add_comm, inputEvents, next, List.append_assoc]
      rfl
  · obtain ⟨t, feed_t, waiting_t, events⟩ := inputEvents_of_line waiting found
    refine ⟨t, (heardLine text).length, rest, s.calls.map .ran ++ giveAll (heardLine text),
      feed_t.trans left, waiting_t, ?_, .inr ⟨shorter, ?_⟩⟩
    · intro later h
      rw [List.append_assoc]
      exact heard later h
    · intro n
      rw [events, List.append_assoc]

theorem inputEvents_of_ended {s : Session} (feed : s.feed = Feed.ofLines [])
    (waiting : s.debugger.pending = []) (n : Nat) :
    s.inputEvents n = List.replicate n (.gave (.failed .inputClosed)) := by
  induction n generalizing s with
  | zero => rfl
  | succ n ih =>
      obtain ⟨t, m, rest, events, feed_t, waiting_t, heard, ⟨rfl, closes⟩ | ⟨shorter, -⟩⟩ :=
        inputEvents_round feed waiting
      · have none : events = [] := by
          have all := heard [] .none
          rw [List.append_nil] at all
          cases all
          rfl
        rw [closes, none, ih feed_t waiting_t]
        rfl
      · cases shorter

/-- The guest hears all lines of the stream, and then only its end. -/
theorem inputEvents_heard {s : Session} {lines : List String} (feed : s.feed = Feed.ofLines lines)
    (waiting : s.debugger.pending = []) :
    ∃ n events, Heard lines events ∧ ∀ k, s.inputEvents (n + (k + 1)) =
      events ++ List.replicate (k + 1) (.gave (.failed .inputClosed)) := by
  -- a round shortens the stream by more than one line where commands are run on the way
  induction size : lines.length using Nat.strongRecOn generalizing s lines with
  | ind size ih =>
      obtain ⟨t, m, rest, events, feed_t, waiting_t, heard, ⟨rfl, closes⟩ | ⟨shorter, goes_on⟩⟩ :=
        inputEvents_round feed waiting
      · refine ⟨0, events, by simpa using heard [] .none, ?_⟩
        intro k
        rw [Nat.zero_add, closes, inputEvents_of_ended feed_t waiting_t]
        rfl
      · obtain ⟨n, later, rest_heard, ends⟩ := ih _ (size ▸ shorter) feed_t waiting_t rfl
        refine ⟨m + n, events ++ later, heard later rest_heard, ?_⟩
        intro k
        rw [Nat.add_assoc, goes_on, ends, List.append_assoc]

end Session

theorem toNat_le_of_mem_heardLine {line : String} {c : Char} (mem : c ∈ heardLine line) :
    c.toNat ≤ 65535 := by
  rcases List.mem_append.mp mem with fitted | last
  · exact toNat_le_of_mem_fitLine fitted
  · obtain rfl := List.mem_singleton.mp last
    decide

theorem filterMap_code?_giveAll {cs : List Char} (fits : ∀ c ∈ cs, c.toNat ≤ 65535) :
    (giveAll cs).filterMap InputEvent.code? = cs.map Char.toNat := by
  induction cs with
  | nil => rfl
  | cons c cs ih =>
      have small := fits c List.mem_cons_self
      have code : (UInt16.ofNat c.toNat).toNat = c.toNat := by
        rw [UInt16.toNat_ofNat']
        omega
      have rest := ih fun d mem => fits d (List.mem_cons_of_mem _ mem)
      simp only [giveAll] at rest
      simp [giveAll, InputEvent.code?, code, rest]

theorem filterMap_call?_giveAll (cs : List Char) :
    (giveAll cs).filterMap InputEvent.call? = [] := by
  simp [giveAll, List.filterMap_map, InputEvent.call?, Function.comp_def]

theorem countP_giveAll (cs : List Char) : (giveAll cs).countP InputEvent.isPreemption = 0 := by
  simp [giveAll, InputEvent.isPreemption, List.countP_eq_zero]

namespace Heard

variable {lines : List String} {events : List InputEvent}

/-- The guest is given the characters of its own lines and nothing else. -/
theorem codes (h : Heard lines events) :
    events.filterMap InputEvent.code? =
      (lines.filter (!isCommandLine ·)).flatMap fun line => (heardLine line).map Char.toNat := by
  induction h with
  | none => rfl
  | @guest line lines events guest rest ih =>
      rw [List.filterMap_append, filterMap_code?_giveAll fun c => toNat_le_of_mem_heardLine, ih]
      simp [guest]
  | passed c command waiting passed rest ih =>
      simp [List.filterMap_cons, InputEvent.code?, command, ih]
  | preempted c command waiting preempting succeeds rest ih =>
      simp [List.filterMap_cons, InputEvent.code?, command, ih]

/-- Every command line is run once, in order. -/
theorem calls (h : Heard lines events) :
    (events.filterMap InputEvent.call?).map Call.line = lines.filter isCommandLine := by
  induction h with
  | none => rfl
  | @guest line lines events guest rest ih =>
      rw [List.filterMap_append, filterMap_call?_giveAll, List.nil_append, ih]
      simp [guest]
  | passed c command waiting passed rest ih => simp [InputEvent.call?, command, ih]
  | preempted c command waiting preempting succeeds rest ih =>
      simp [List.filterMap_cons, InputEvent.call?, command, ih]

theorem waiting_of_call (h : Heard lines events) :
    ∀ c ∈ events.filterMap InputEvent.call?, c.before.pending = [] := by
  induction h with
  | none => simp
  | guest guest rest ih =>
      rw [List.filterMap_append, filterMap_call?_giveAll, List.nil_append]
      exact ih
  | passed c command waiting passed rest ih =>
      simpa [List.filterMap_cons, InputEvent.call?, waiting] using ih
  | preempted c command waiting preempting succeeds rest ih =>
      simpa [List.filterMap_cons, InputEvent.call?, waiting] using ih

/-- One request is answered with nothing for each command that preempts. -/
theorem preemptions (h : Heard lines events) :
    events.countP InputEvent.isPreemption =
      (events.filterMap InputEvent.call?).countP fun c =>
        (c.command = .halt ∨ c.command = .load) ∧ c.Succeeds := by
  induction h with
  | none => rfl
  | guest guest rest ih =>
      rw [List.filterMap_append, filterMap_call?_giveAll, List.countP_append, countP_giveAll, ih]
      simp
  | passed c command waiting passed rest ih =>
      have goes_on : ¬((c.command = .halt ∨ c.command = .load) ∧ c.Succeeds) := by
        rintro ⟨kind, succeeds⟩
        exact passed kind succeeds
      simp [InputEvent.call?, InputEvent.isPreemption, goes_on, ih]
  | preempted c command waiting preempting succeeds rest ih =>
      simp [List.filterMap_cons, InputEvent.call?, InputEvent.isPreemption, List.countP_cons,
        preempting, succeeds, ih]

end Heard

namespace Session

theorem get_perform_await {s t : Session} {next : Int} {cell : Cell} {unit : Word}
    (given : s.nextChar = (t, .char unit)) :
    (s.perform next (.await cell)).1.machine.memory.get cell = unit := by
  rw [perform_await, given]
  exact Memory.get_set_self _ _ _

/-- Whatever lines a text stream presents, the guest is given those that name no command, each
fitted and ended by a line feed, every character in a cell as it is. Those that name a command are
run once each, in their place and between lines: what is listed is what happens, each command being
run on the debugger that the one before it left. A command that preempts answers one request with
nothing. Requests fail once all lines are used up, and not before. -/
theorem guest_hears_lines {lines : List String} {text : List Char} {s : Session}
    (presents : Text.Presents (lines.map String.toList) text)
    (feed : s.feed = .stream (.ofText text .closes)) (waiting : s.debugger.pending = []) :
    ∃ n events, Heard lines events ∧
      (∀ k, s.inputEvents (n + (k + 1)) =
        events ++ List.replicate (k + 1) (.gave (.failed .inputClosed))) ∧
      (∀ k, s.Happens (s.inputEvents k) ((fun t : Session => t.nextChar.1)^[k] s)) ∧
      events.filterMap InputEvent.code? =
        (lines.filter (!isCommandLine ·)).flatMap (fun line => (heardLine line).map Char.toNat) ∧
      (∀ code ∈ events.filterMap InputEvent.code?, code ≤ 65535) ∧
      (∀ (t u : Session) (next : Int) (cell : Cell) (unit : Word), t.nextChar = (u, .char unit) →
        (t.perform next (.await cell)).1.machine.memory.get cell = unit) ∧
      (events.filterMap InputEvent.call?).map Call.line = lines.filter isCommandLine ∧
      (∀ c ∈ events.filterMap InputEvent.call?, c.before.pending = []) ∧
      events.countP InputEvent.isPreemption =
        (events.filterMap InputEvent.call?).countP fun c =>
          (c.command = .halt ∨ c.command = .load) ∧ c.Succeeds := by
  have stream : s.feed = Feed.ofLines lines := by
    rw [feed, TextStream.ofText, Text.streamLines_of_presents presents, List.map_map]
    simp [Feed.ofLines, Function.comp_def]
  obtain ⟨n, events, heard, ends⟩ := inputEvents_heard stream waiting
  have fits : ∀ code ∈ events.filterMap InputEvent.code?, code ≤ 65535 := by
    intro code mem
    rw [heard.codes] at mem
    obtain ⟨line, -, mem⟩ := List.mem_flatMap.mp mem
    obtain ⟨c, given, rfl⟩ := List.mem_map.mp mem
    exact toNat_le_of_mem_heardLine given
  exact ⟨n, events, heard, ends, s.happens, heard.codes, fits,
    fun t u next cell unit => get_perform_await, heard.calls, heard.waiting_of_call,
    heard.preemptions⟩

/-- A session with three lines of input, the first a command, the last without its end. -/
def talking : Session where
  feed := .stream (.ofText
    ("!halt".toList ++ '\r' :: '\n' :: ("hi".toList ++ '\n' :: "!dumps".toList)) .closes)

theorem talking_guest_hears_lines :
    ∃ n events, (∀ k, talking.inputEvents (n + (k + 1)) =
        events ++ List.replicate (k + 1) (.gave (.failed .inputClosed))) ∧
      events.filterMap InputEvent.code? = [104, 105, 10, 33, 100, 117, 109, 112, 115, 10] ∧
      (events.filterMap InputEvent.call?).map Call.line = ["!halt"] := by
  have presents : Text.Presents (["!halt", "hi", "!dumps"].map String.toList)
      ("!halt".toList ++ '\r' :: '\n' :: ("hi".toList ++ '\n' :: "!dumps".toList)) :=
    .returned (by decide +kernel) (by decide +kernel)
      (.feed (by decide +kernel) (by decide +kernel)
        (.last (by decide +kernel) (by decide +kernel) (by decide +kernel)))
  obtain ⟨n, events, -, ends, -, codes, -, -, calls, -⟩ :=
    guest_hears_lines (s := talking) presents rfl rfl
  exact ⟨n, events, ends, codes.trans (by decide +kernel), calls.trans (by decide +kernel)⟩

end Session

end WordMachine
