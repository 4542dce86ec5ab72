import WordMachine.Proofs.CommandEffect
import WordMachine.Session

/-!
# Waiting for a line

What happens while the guest waits for its next line: lines that name a command are run one after
the other, until one of them preempts the waiting instruction, a line for the guest turns up, or
the feed has no more. Up to that point only the cells that `set` stores to change.
-/

namespace WordMachine

/-- The memory after the stores of some commands, in order. -/
def Memory.poked (m : Memory) (calls : List Call) : Memory :=
  (calls.filterMap Call.poke?).foldl (fun m poke => m.set poke.1 poke.2) m

@[simp] theorem Memory.poked_nil (m : Memory) : m.poked [] = m := rfl

theorem Memory.poked_append (m : Memory) (cs ds : List Call) :
    m.poked (cs ++ ds) = (m.poked cs).poked ds := by
  simp only [poked, List.filterMap_append, List.foldl_append]

/-- A cell that no command stores to keeps its content. -/
theorem Memory.get_poked_of_untouched (m : Memory) {calls : List Call} {cell : Cell}
    (untouched : ∀ c ∈ calls, ∀ value, c.poke? ≠ some (cell, value)) :
    (m.poked calls).get cell = m.get cell := by
  induction calls generalizing m with
  | nil => rfl
  | cons c calls ih =>
      have rest := ih (m.poked [c]) fun d mem => untouched d (List.mem_cons_of_mem _ mem)
      have first := untouched c List.mem_cons_self
      rw [← List.singleton_append, poked_append, rest]
      cases poke : c.poke? with
      | none => simp [poked, poke]
      | some target =>
          have other : target.1 ≠ cell := fun same => first target.2 (by rw [poke, ← same])
          simp [poked, poke, get_set_of_ne _ _ other]

/-- One debugger after some commands that did not preempt, as it was left by another one. -/
structure Debugger.Waited (d : Debugger) (calls : List Call) (d' : Debugger) : Prop where
  machine : d'.machine = { d.machine with memory := d.machine.memory.poked calls }
  pending : d'.pending = d.pending
  setting : d'.setting = d.setting

namespace Debugger

theorem Waited.refl (d : Debugger) (host : Host) (preempted : Bool) :
    d.Waited [] { d with host, preempted } := ⟨rfl, rfl, rfl⟩

theorem Waited.trans {d d₁ d₂ : Debugger} {cs ds : List Call} (first : d.Waited cs d₁)
    (second : d₁.Waited ds d₂) : d.Waited (cs ++ ds) d₂ where
  machine := by rw [second.machine, first.machine, Memory.poked_append]
  pending := second.pending.trans first.pending
  setting := second.setting.trans first.setting

end Debugger

/-- A command that does not preempt changes one cell at most. -/
theorem Call.waited {c : Call} (stays : c.after.preempted = false) :
    c.before.Waited [c] c.after := by
  rcases c.reaction with
    ⟨host, after, poke, -⟩ | ⟨host, cell, value, poke, -, -, after⟩ | ⟨host, -, -, after⟩
    | ⟨host, path, s, memory, -, -, -, -, -, after⟩
  · rw [after]
    exact ⟨by simp [Memory.poked, poke], rfl, rfl⟩
  · rw [after]
    exact ⟨by simp [Memory.poked, poke], rfl, rfl⟩
  · rw [after] at stays
    cases stays
  · rw [after] at stays
    cases stays

/-- A stream that has lines left and then comes to its end. -/
def Feed.ofLines (lines : List String) : Feed := .stream (.ofLines lines .closes)

theorem Feed.nextLine_stream_cons (line : String) (lines : List String) (ending : StreamEnd)
    (h : Host) :
    (Feed.stream (.ofLines (line :: lines) ending)).nextLine h =
      (.line line, .stream (.ofLines lines ending), h) := by
  simp [Feed.nextLine, TextStream.nextLine, TextStream.ofLines, TextStream.take]

theorem Feed.nextLine_stream_nil (ending : StreamEnd) (h : Host) :
    (Feed.stream (.ofLines [] ending)).nextLine h =
      (ending.reading, .stream (.ofLines [] ending), h) := by
  simp only [Feed.nextLine, TextStream.nextLine, TextStream.ofLines]
  rw [TextStream.fill]
  rfl

@[simp] theorem Feed.nextLine_ofLines_cons (line : String) (lines : List String) (h : Host) :
    (Feed.ofLines (line :: lines)).nextLine h = (.line line, Feed.ofLines lines, h) :=
  nextLine_stream_cons line lines .closes h

@[simp] theorem Feed.nextLine_ofLines_nil (h : Host) :
    (Feed.ofLines []).nextLine h = (.closed, Feed.ofLines [], h) :=
  nextLine_stream_nil .closes h

/-- The commands that are run while the guest waits for its next line, in order. -/
def awaitCalls (feed : Feed) (d : Debugger) : List Call :=
  match _reads : feed.nextLine d.host with
  | (.line text, next, host) =>
      match Command.ofName? (commandWord text) with
      | none => []
      | some command =>
          let call : Call := ⟨command, text, { d with host, preempted := false }⟩
          if call.after.preempted then [call] else call :: awaitCalls next call.after
  | _ => []
termination_by feed.size
decreasing_by
  have := @Feed.size_nextLine_lt feed d.host text (by rw [_reads])
  rw [_reads] at this
  exact this

theorem awaitCalls_of_end {feed : Feed} {d : Debugger}
    (ended : ∀ text, (feed.nextLine d.host).1 ≠ .line text) : awaitCalls feed d = [] := by
  rw [awaitCalls]
  split
  · next text next host reads => exact absurd (by rw [reads]) (ended text)
  · rfl

theorem awaitCalls_of_guest {feed next : Feed} {d : Debugger} {host : Host} {text : String}
    (reads : feed.nextLine d.host = (.line text, next, host))
    (word : Command.ofName? (commandWord text) = none) : awaitCalls feed d = [] := by
  rw [awaitCalls]
  split
  · next reads' =>
      cases reads.symm.trans reads'
      simp only [word]
  · rfl

theorem awaitCalls_of_command {feed next : Feed} {d : Debugger} {host : Host} {text : String}
    {c : Call} (reads : feed.nextLine d.host = (.line text, next, host))
    (word : Command.ofName? (commandWord text) = some c.command) (asked : c.line = text)
    (before : c.before = { d with host, preempted := false }) :
    awaitCalls feed d = if c.after.preempted then [c] else c :: awaitCalls next c.after := by
  obtain ⟨command, line, debugger⟩ := c
  obtain rfl : line = text := asked
  obtain rfl : debugger = { d with host, preempted := false } := before
  rw [awaitCalls]
  split
  · next reads' =>
      cases reads.symm.trans reads'
      simp only [word]
  · next other => exact absurd reads (other _ _ _)

theorem awaitCalls_ofLines {line : String} {lines : List String} {d : Debugger} {c : Call}
    (word : Command.ofName? (commandWord line) = some c.command) (asked : c.line = line)
    (before : c.before = { d with preempted := false }) :
    awaitCalls (.ofLines (line :: lines)) d =
      if c.after.preempted then [c] else c :: awaitCalls (.ofLines lines) c.after :=
  awaitCalls_of_command (Feed.nextLine_ofLines_cons line lines d.host) word asked before

/-- The search for the guest's next line, with the commands run on the way and its outcome. -/
inductive Awaits : Feed → Debugger → List Call → Feed × Debugger × GuestLine → Prop where
  | closed {feed next : Feed} {d : Debugger} {host : Host}
      (reads : feed.nextLine d.host = (.closed, next, host)) :
      Awaits feed d [] (next, { d with host }, .failed .inputClosed)
  | failed {feed next : Feed} {d : Debugger} {host : Host} {e : ReadError}
      (reads : feed.nextLine d.host = (.failed e, next, host)) :
      Awaits feed d [] (next, { d with host }, .failed (.inputFailed e))
  | interrupted {feed next : Feed} {d : Debugger} {host : Host}
      (reads : feed.nextLine d.host = (.interrupted, next, host)) :
      Awaits feed d [] (next, { d with host }, .interrupted)
  | line {feed next : Feed} {d : Debugger} {host : Host} {text : String}
      (reads : feed.nextLine d.host = (.line text, next, host))
      (word : Command.ofName? (commandWord text) = none) :
      Awaits feed d [] (next, { d with host }, .line text)
  | preempted {feed next : Feed} {d : Debugger} {host : Host} {text : String} {c : Call}
      (reads : feed.nextLine d.host = (.line text, next, host))
      (word : Command.ofName? (commandWord text) = some c.command) (asked : c.line = text)
      (before : c.before = { d with host, preempted := false })
      (preempts : c.after.preempted = true) :
      Awaits feed d [c] (next, { c.after with preempted := false }, .preempted)
  | command {feed next : Feed} {d : Debugger} {host : Host} {text : String} {c : Call}
      {calls : List Call} {result : Feed × Debugger × GuestLine}
      (reads : feed.nextLine d.host = (.line text, next, host))
      (word : Command.ofName? (commandWord text) = some c.command) (asked : c.line = text)
      (before : c.before = { d with host, preempted := false })
      (stays : c.after.preempted = false) (rest : Awaits next c.after calls result) :
      Awaits feed d (c :: calls) result

theorem awaitLine_eq (feed : Feed) (d : Debugger) :
    awaitLine feed d =
      match feed.nextLine d.host with
      | (.closed, feed, host) => (feed, { d with host }, .failed .inputClosed)
      | (.failed e, feed, host) => (feed, { d with host }, .failed (.inputFailed e))
      | (.interrupted, feed, host) => (feed, { d with host }, .interrupted)
      | (.line text, next, host) =>
          match Command.ofName? (commandWord text) with
          | none => (next, { d with host }, .line text)
          | some command =>
              let after := command.dispatch { d with host, preempted := false } text
              if after.preempted then (next, { after with preempted := false }, .preempted)
              else awaitLine next after := by
  rw [awaitLine]
  split
  · next reads => rw [reads]
  · next reads => rw [reads]
  · next reads => rw [reads]
  · next reads =>
      rewrite [reads]
      rfl

theorem awaits (feed : Feed) (d : Debugger) :
    Awaits feed d (awaitCalls feed d) (awaitLine feed d) := by
  fun_induction awaitLine feed d with
  | case1 feed d next host reads =>
      rw [awaitCalls_of_end (by simp [reads])]
      exact .closed reads
  | case2 feed d e next host reads =>
      rw [awaitCalls_of_end (by simp [reads])]
      exact .failed reads
  | case3 feed d next host reads =>
      rw [awaitCalls_of_end (by simp [reads])]
      exact .interrupted reads
  | case4 feed d text next host reads word =>
      rw [awaitCalls_of_guest reads word]
      exact .line reads word
  | case5 feed d text next host reads command word after preempts =>
      let c : Call := ⟨command, text, { d with host, preempted := false }⟩
      have preempts : c.after.preempted = true := preempts
      rw [awaitCalls_of_command (c := c) reads word rfl rfl, if_pos preempts]
      exact .preempted reads word rfl rfl preempts
  | case6 feed d text next host reads command word after stays ih =>
      let c : Call := ⟨command, text, { d with host, preempted := false }⟩
      have stays : ¬c.after.preempted = true := stays
      rw [awaitCalls_of_command (c := c) reads word rfl rfl, if_neg stays]
      exact .command reads word rfl rfl (Bool.eq_false_iff.mpr stays) ih

namespace Awaits

variable {feed : Feed} {d : Debugger} {calls : List Call} {result : Feed × Debugger × GuestLine}

theorem awaitLine_eq (h : Awaits feed d calls result) : awaitLine feed d = result := by
  induction h with
  | closed reads | failed reads | interrupted reads => rw [WordMachine.awaitLine_eq, reads]
  | line reads word =>
      rw [WordMachine.awaitLine_eq, reads]
      simp only [word]
  | @preempted feed next d host text c reads word asked before preempts =>
      rw [WordMachine.awaitLine_eq, reads]
      simp only [word]
      rw [← before, ← asked]
      exact if_pos preempts
  | @command feed next d host text c calls result reads word asked before stays rest ih =>
      have goes_on : ¬c.after.preempted = true := Bool.eq_false_iff.mp stays
      rw [WordMachine.awaitLine_eq, reads]
      simp only [word]
      rw [← before, ← asked]
      exact (if_neg goes_on).trans ih

/-- Every command finds the debugger as the commands before it left it. -/
theorem waited_before (h : Awaits feed d calls result) {earlier later : List Call} {c : Call}
    (place : calls = earlier ++ c :: later) : d.Waited earlier c.before := by
  -- a command in front of `c` did not preempt, or `c` would not have been read
  induction h generalizing earlier with
  | closed | failed | interrupted | line => simp at place
  | @preempted feed next d host text c' reads word asked before preempts =>
      cases earlier with
      | nil =>
          obtain ⟨rfl, -⟩ : c' = c ∧ [] = later := by simpa using place
          exact before ▸ .refl d host false
      | cons e earlier => simp at place
  | @command feed next d host text c' calls result reads word asked before stays rest ih =>
      cases earlier with
      | nil =>
          obtain ⟨rfl, -⟩ : c' = c ∧ calls = later := by simpa using place
          exact before ▸ .refl d host false
      | cons e earlier =>
          obtain ⟨rfl, tail⟩ : c' = e ∧ calls = earlier ++ c :: later := by simpa using place
          have start : d.Waited [] c'.before := before ▸ .refl d host false
          exact start.trans ((Call.waited stays).trans (ih tail))

/-- When no command preempts, the commands have changed some cells at most. -/
theorem waited_after (h : Awaits feed d calls result) (goes_on : result.2.2 ≠ .preempted) :
    d.Waited calls result.2.1 := by
  induction h with
  | closed | failed | interrupted | line => exact .refl _ _ _
  | preempted => exact absurd rfl goes_on
  | @command feed next d host text c calls result reads word asked before stays rest ih =>
      have start : d.Waited [] c.before := before ▸ .refl d host false
      exact start.trans ((Call.waited stays).trans (ih goes_on))

/-- A command that preempts gives the search up. -/
theorem preempted_of_mem (h : Awaits feed d calls result) {r : Call} (mem : r ∈ calls)
    (preempts : r.after.preempted = true) :
    result.2 = ({ r.after with preempted := false }, .preempted) := by
  induction h with
  | closed | failed | interrupted | line => cases mem
  | @preempted feed next d host text c reads word asked before gives_up =>
      obtain rfl := List.mem_singleton.mp mem
      rfl
  | @command feed next d host text c calls result reads word asked before stays rest ih =>
      rcases List.mem_cons.mp mem with rfl | later
      · rw [stays] at preempts
        cases preempts
      · exact ih later

end Awaits

namespace Session

@[simp] theorem flushTrace_output (s : Session) : s.flushTrace.output = s.output := by
  unfold flushTrace
  split <;> rfl

theorem flushTrace_debugger (s : Session) :
    ∃ host, s.flushTrace.debugger = { s.debugger with host } := by
  unfold flushTrace
  split
  · exact ⟨s.debugger.host, rfl⟩
  · exact ⟨_, rfl⟩

theorem waited_flushTrace (s : Session) : s.debugger.Waited [] s.flushTrace.debugger := by
  obtain ⟨host, flushed⟩ := s.flushTrace_debugger
  rw [flushed]
  exact .refl _ host _

/-- The commands that are run when the guest asks for a character. -/
def calls (s : Session) : List Call :=
  if s.debugger.pending = [] then awaitCalls s.feed s.flushTrace.debugger else []

theorem nextChar_of_pending {s : Session} {c : Char} {rest : List Char}
    (pending : s.debugger.pending = c :: rest) :
    s.nextChar =
      (s.mapDebugger fun d => { d with pending := rest }, .char (UInt16.ofNat c.toNat)) := by
  simp only [nextChar, pending]

theorem nextChar_of_waiting {s : Session} (waiting : s.debugger.pending = []) :
    s.nextChar = s.flushTrace.deliver (awaitLine s.feed s.flushTrace.debugger) := by
  simp only [nextChar, waiting]

theorem calls_of_pending {s : Session} {c : Char} {rest : List Char}
    (pending : s.debugger.pending = c :: rest) : s.calls = [] := by
  simp [calls, pending]

theorem calls_of_waiting {s : Session} (waiting : s.debugger.pending = []) :
    s.calls = awaitCalls s.feed s.flushTrace.debugger := if_pos waiting

/-- Every command that is run for the guest finds no line begun, and the machine as the commands
before it left it. -/
theorem waited_calls (s : Session) {earlier later : List Call} {c : Call}
    (place : s.calls = earlier ++ c :: later) :
    s.debugger.pending = [] ∧ s.debugger.Waited earlier c.before := by
  by_cases waiting : s.debugger.pending = []
  · rw [calls_of_waiting waiting] at place
    have before := (awaits s.feed s.flushTrace.debugger).waited_before place
    exact ⟨waiting, s.waited_flushTrace.trans before⟩
  · simp [calls, waiting] at place

theorem nextChar_of_preempting {s : Session} {r : Call} (mem : r ∈ s.calls)
    (preempts : r.after.preempted = true) :
    ∃ t, s.nextChar = (t, .preempted) ∧ t.debugger = { r.after with preempted := false } := by
  cases pending : s.debugger.pending with
  | cons c rest =>
      rw [calls_of_pending pending] at mem
      cases mem
  | nil =>
      rw [calls_of_waiting pending] at mem
      have given_up := (awaits s.feed s.flushTrace.debugger).preempted_of_mem mem preempts
      rw [nextChar_of_waiting pending]
      rcases line : awaitLine s.feed s.flushTrace.debugger with ⟨feed, d, outcome⟩
      rw [line] at given_up
      obtain ⟨rfl, rfl⟩ := Prod.mk.injEq .. ▸ given_up
      exact ⟨_, rfl, rfl⟩

/-- When the guest is refused a character, the commands have changed some cells at most. -/
theorem waited_of_failed {s t : Session} {cause : Fault.Cause}
    (refused : s.nextChar = (t, .failed cause)) :
    s.debugger.Waited s.calls t.debugger ∧ s.debugger.pending = [] ∧ t.output = s.output := by
  cases pending : s.debugger.pending with
  | cons c rest =>
      rw [nextChar_of_pending pending] at refused
      cases refused
  | nil =>
      have found := awaits s.feed s.flushTrace.debugger
      rw [nextChar_of_waiting pending] at refused
      rw [calls_of_waiting pending]
      rcases line : awaitLine s.feed s.flushTrace.debugger with ⟨feed, d, outcome⟩
      rw [line] at refused found
      cases outcome with
      | preempted | interrupted | line => cases refused
      | failed cause' =>
          obtain ⟨rfl, rfl⟩ : { s.flushTrace with feed, debugger := d } = t ∧ cause' = cause := by
            simpa [deliver] using refused
          exact ⟨s.waited_flushTrace.trans (found.waited_after (by simp)), rfl,
            flushTrace_output s⟩

end Session

end WordMachine
