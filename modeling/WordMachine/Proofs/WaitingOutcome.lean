import WordMachine.Proofs.CommandOutcome
import WordMachine.Proofs.InstructionTable
import WordMachine.Proofs.RemainingInput

/-!
# Outcomes of waiting

A guest that asks for a character gets one of the line it has begun, or of the first line of its
input that names no command. Commands in front of that line are run and done with, unless one of
them halts the machine or goes on from a snapshot: then the guest gets nothing, and nothing behind
that command is read. Otherwise the input ends first, or cannot be read.
-/

namespace WordMachine

/-- The command gives up the instruction that waits: it halts, or goes on from a snapshot. -/
def Call.Decides (c : Call) : Prop := (c.command = .halt ∨ c.command = .load) ∧ c.Succeeds

instance (c : Call) : Decidable c.Decides :=
  inferInstanceAs (Decidable ((c.command = .halt ∨ c.command = .load) ∧ c.Succeeds))

/-- The lines of a feed, one after the other, are those of the given commands. Every command is run
on the debugger that the ones before it have left, with the host that its line was read with. -/
inductive Feed.Serves : Feed → Debugger → List Call → Feed → Debugger → Prop where
  | nil {feed : Feed} {d : Debugger} : Serves feed d [] feed d
  | cons {feed next last : Feed} {d d' : Debugger} {host : Host} {c : Call} {calls : List Call}
      (reads : feed.nextLine d.host = (.line c.line, next, host))
      (word : Command.ofName? (commandWord c.line) = some c.command)
      (before : c.before = { d with host, preempted := false })
      (rest : Serves next c.after calls last d') : Serves feed d (c :: calls) last d'

/-- The lines of a text that were served are gone, and no others. -/
theorem Feed.Serves.of_ofLines {lines : List String} {last : Feed} {d d' : Debugger}
    {calls : List Call} (h : Serves (.ofLines lines) d calls last d') :
    ∃ rest, lines = calls.map Call.line ++ rest ∧ last = .ofLines rest := by
  generalize text : Feed.ofLines lines = feed at h
  induction h generalizing lines with
  | nil => exact ⟨lines, rfl, text.symm⟩
  | @cons feed next last d d' host c calls reads word before served ih =>
      subst text
      cases lines with
      | nil =>
          rw [nextLine_ofLines_nil] at reads
          cases congrArg Prod.fst reads
      | cons line lines =>
          rw [nextLine_ofLines_cons] at reads
          cases reads
          obtain ⟨rest, split, left⟩ := ih rfl
          exact ⟨rest, by rw [split]; rfl, left⟩

/-- What a search for the guest's line has come to behind some commands: the last of them decided,
or else the reading behind them did. -/
inductive Decided (last : Feed) (d : Debugger) (calls : List Call) :
    Feed × Debugger × GuestLine → Prop where
  | line {next : Feed} {host : Host} {text : String}
      (reads : last.nextLine d.host = (.line text, next, host))
      (word : Command.ofName? (commandWord text) = none) (stays : ∀ c ∈ calls, ¬c.Decides) :
      Decided last d calls (next, { d with host }, .line text)
  | closed {next : Feed} {host : Host} (reads : last.nextLine d.host = (.closed, next, host))
      (stays : ∀ c ∈ calls, ¬c.Decides) :
      Decided last d calls (next, { d with host }, .failed .inputClosed)
  | failed {next : Feed} {host : Host} {e : ReadError}
      (reads : last.nextLine d.host = (.failed e, next, host)) (stays : ∀ c ∈ calls, ¬c.Decides) :
      Decided last d calls (next, { d with host }, .failed (.inputFailed e))
  | interrupted {next : Feed} {host : Host} :
      Decided last d calls (next, { d with host }, .interrupted)
  | preempted {earlier : List Call} {c : Call} (place : calls = earlier ++ [c])
      (stays : ∀ e ∈ earlier, ¬e.Decides) (decides : c.Decides) (left : d = c.after) :
      Decided last d calls (last, { c.after with preempted := false }, .preempted)

theorem Decided.cons {last : Feed} {d : Debugger} {calls : List Call}
    {result : Feed × Debugger × GuestLine} {c : Call} (h : Decided last d calls result)
    (first : ¬c.Decides) : Decided last d (c :: calls) result := by
  have all {earlier : List Call} (stays : ∀ e ∈ earlier, ¬e.Decides) :
      ∀ e ∈ c :: earlier, ¬e.Decides := List.forall_mem_cons.mpr ⟨first, stays⟩
  cases h with
  | line reads word stays => exact .line reads word (all stays)
  | closed reads stays => exact .closed reads (all stays)
  | failed reads stays => exact .failed reads (all stays)
  | interrupted => exact .interrupted
  | preempted place stays decides left =>
      exact .preempted (by rw [place]; rfl) (all stays) decides left

theorem Awaits.decided {feed : Feed} {d : Debugger} {calls : List Call}
    {result : Feed × Debugger × GuestLine} (h : Awaits feed d calls result) :
    ∃ last d', Feed.Serves feed d calls last d' ∧ Decided last d' calls result := by
  induction h with
  | closed reads => exact ⟨_, _, .nil, .closed reads (List.forall_mem_nil _)⟩
  | failed reads => exact ⟨_, _, .nil, .failed reads (List.forall_mem_nil _)⟩
  | interrupted reads => exact ⟨_, _, .nil, .interrupted⟩
  | line reads word => exact ⟨_, _, .nil, .line reads word (List.forall_mem_nil _)⟩
  | @preempted feed next d host text c reads word asked before preempts =>
      have fresh : c.before.preempted = false := by rw [before]
      have decides : c.Decides := (Call.preempted_after_iff fresh).mp preempts
      subst asked
      exact ⟨next, c.after, .cons reads word before .nil,
        .preempted (List.nil_append _).symm (List.forall_mem_nil _) decides rfl⟩
  | @command feed next d host text c calls result reads word asked before stays rest ih =>
      have fresh : c.before.preempted = false := by rw [before]
      have goes_on : ¬c.Decides := by
        intro decides
        rw [(Call.preempted_after_iff fresh).mpr decides] at stays
        cases stays
      obtain ⟨last, d', served, decided⟩ := ih
      subst asked
      exact ⟨last, d', .cons reads word before served, decided.cons goes_on⟩

/-- A machine that has waited while some commands were run. -/
def Machine.waiting (m : Machine) (calls : List Call) : Machine :=
  { m with memory := m.memory.poked calls, cycles := m.cycles + 1 }

namespace Session

variable {s t : Session} {cell : Cell}

/-- The debugger when the step begins to read: the cycle is counted, and what was traced so far is
in its file. -/
def reading (s : Session) : Debugger := (s.poised s.machine.instruction).flushTrace.debugger

/-- Where the next character comes from: the line that was begun, or the first line that names no
command, behind commands that leave the guest waiting. -/
inductive Takes (s t : Session) (c : Char) : Prop where
  | pending (pending : s.debugger.pending = c :: t.debugger.pending) (calls : s.stepCalls = [])
      (feed : t.feed = s.feed) : Takes s t c
  | line {last : Feed} {d : Debugger} {host : Host} {text : String}
      (pending : s.debugger.pending = [])
      (served : Feed.Serves s.feed s.reading s.stepCalls last d)
      (stays : ∀ e ∈ s.stepCalls, ¬e.Decides)
      (reads : last.nextLine d.host = (.line text, t.feed, host))
      (word : Command.ofName? (commandWord text) = none)
      (fitted : fitLine text.toList ++ ['\n'] = c :: t.debugger.pending) : Takes s t c

/-- The guest gets a character. -/
structure Delivers (s : Session) (cell : Cell) (t : Session) (c : Char) : Prop where
  step : s.step = (t, none)
  takes : s.Takes t c
  fits : c.toNat ≤ 65535
  machine : t.machine = { s.machine.waiting s.stepCalls with
    memory := (s.machine.memory.poked s.stepCalls).set cell (UInt16.ofNat c.toNat)
    pc := s.machine.pc + 2 }

/-- The last command that was read decided, and nothing behind it was read. -/
structure GivenUp (s t : Session) (earlier : List Call) (c : Call) : Prop where
  step : s.step = (t, none)
  waiting : s.debugger.pending = []
  place : s.stepCalls = earlier ++ [c]
  served : Feed.Serves s.feed s.reading s.stepCalls t.feed c.after
  stays : ∀ e ∈ earlier, ¬e.Decides
  succeeds : c.Succeeds
  pending : t.debugger.pending = []

/-- A command halts the machine. -/
structure HaltsBy (s t : Session) (earlier : List Call) (c : Call) : Prop extends
    s.GivenUp t earlier c where
  command : c.command = .halt
  machine : t.machine = { s.machine.waiting earlier with running := false }
  status : t.machine.status = .halted

/-- A command goes on from the snapshot file, whatever the machine was before. -/
structure ReloadsBy (s t : Session) (earlier : List Call) (c : Call) : Prop extends
    s.GivenUp t earlier c where
  command : c.command = .load
  file : ∃ path content saved, c.before.snapshotFile = some path ∧
    c.before.host.files.readFile path = .ok content ∧ Snapshot.decode content = .ok saved ∧
    t.machine.pc = saved.pc ∧ t.machine.stack = saved.stack.reverse ∧
    (t.machine.memory.toList.map fun w => (w.toNat : Int)) = saved.memory
  status : t.machine.status = .running

/-- The input ends, or fails, before anything is decided. -/
structure Starved (s t : Session) (f : Fault) : Prop where
  step : s.step = (t, some (.fault f))
  waiting : s.debugger.pending = []
  stays : ∀ e ∈ s.stepCalls, ¬e.Decides
  reads : ∃ last d host, Feed.Serves s.feed s.reading s.stepCalls last d ∧
    (last.nextLine d.host = (.closed, t.feed, host) ∧ f.cause = .inputClosed ∨
      ∃ e, last.nextLine d.host = (.failed e, t.feed, host) ∧ f.cause = .inputFailed e)
  pc : f.pc = some s.machine.pc
  machine : t.machine = (s.machine.waiting s.stepCalls).stopped f

/-- The ways in which a step that waits for a character ends. -/
inductive Way where
  | delivered
  | halted
  | reloaded
  | starved
  deriving DecidableEq, Repr

def EndsBy (s : Session) (cell : Cell) : Way → Prop
  | .delivered => ∃ t c, s.Delivers cell t c
  | .halted => ∃ t earlier c, s.HaltsBy t earlier c
  | .reloaded => ∃ t earlier c, s.ReloadsBy t earlier c
  | .starved => ∃ t f, s.Starved t f

theorem step_of_waits (running : s.machine.running = true) (waits : s.machine.WaitsFor cell) :
    s.step = (s.poised s.machine.instruction).perform (s.machine.pc + 2) (.await cell) ∧
      s.stepCalls = (s.poised s.machine.instruction).calls := by
  obtain ⟨i, upcoming⟩ := Machine.waitsFor_iff.mp waits
  obtain ⟨fetched, settled⟩ := Machine.upcoming_eq_ok_iff.mp upcoming
  have input := (Instruction.effect_eq_await_iff.mp settled).1
  have step := step_of_upcoming running upcoming
  rw [input] at step
  obtain rfl := Machine.fetched_eq_ok fetched
  exact ⟨step, stepCalls_of_await upcoming⟩

theorem deliver_line (s : Session) (feed : Feed) (d : Debugger) (text : String) :
    ∃ t c, s.deliver (feed, d, .line text) = (t, .char (UInt16.ofNat c.toNat)) ∧
      fitLine text.toList ++ ['\n'] = c :: t.debugger.pending ∧ c.toNat ≤ 65535 ∧
      t.machine = d.machine ∧ t.feed = feed := by
  have machine := s.deliver_machine (feed, d, .line text)
  cases fitted : fitLine text.toList with
  | nil =>
      refine ⟨_, '\n', ?_, ?_, by decide, machine, rfl⟩
      · simp only [deliver, fitted]; rfl
      · simp [deliver, fitted]
  | cons c rest =>
      refine ⟨_, c, ?_, ?_, ?_, machine, rfl⟩
      · simp only [deliver, fitted]; rfl
      · simp [deliver, fitted]
      · apply toNat_le_of_mem_fitLine
        rw [fitted]
        exact List.mem_cons_self

theorem machine_of_stored (s : Session) (next : Int) (cell : Cell) (unit : Word) :
    (s.mapMachine (·.apply next (.store cell unit))).machine =
      { s.machine with memory := s.machine.memory.set cell unit, pc := next } := rfl

/-- A line that was begun serves the guest at once. -/
theorem delivers_of_pending {c : Char} {rest : List Char} (sound : s.Sound)
    (running : s.machine.running = true) (waits : s.machine.WaitsFor cell)
    (pending : s.debugger.pending = c :: rest) : ∃ t, s.Delivers cell t c := by
  obtain ⟨step, calls⟩ := step_of_waits running waits
  have near := s.near_poised s.machine.instruction
  have begun : (s.poised s.machine.instruction).debugger.pending = c :: rest :=
    near.pending.trans pending
  have fits : c.toNat ≤ 65535 := sound.fits c (by rw [pending]; exact List.mem_cons_self)
  rw [calls_of_pending begun] at calls
  rw [perform_await, nextChar_of_pending begun] at step
  let u := (s.poised s.machine.instruction).mapDebugger fun d => { d with pending := rest }
  have machine : u.machine = { s.machine with cycles := s.machine.cycles + 1 } :=
    s.poised_machine s.machine.instruction
  refine ⟨u.mapMachine _, step, .pending pending calls near.feed, fits, ?_⟩
  rw [calls, machine_of_stored, machine]
  rfl

/-- Without a line that was begun, lines are read. -/
theorem searched (running : s.machine.running = true) (waits : s.machine.WaitsFor cell)
    (pending : s.debugger.pending = []) :
    ∃ result last d,
      (s.poised s.machine.instruction).nextChar =
        (s.poised s.machine.instruction).flushTrace.deliver result ∧
      Feed.Serves s.feed s.reading s.stepCalls last d ∧ Decided last d s.stepCalls result ∧
      (result.2.2 ≠ .preempted → result.2.1.machine = s.machine.waiting s.stepCalls) := by
  obtain ⟨-, calls⟩ := step_of_waits running waits
  let u := s.poised s.machine.instruction
  have near : s.Near u := s.near_poised s.machine.instruction
  have waiting : u.debugger.pending = [] := near.pending.trans pending
  have found := awaits u.feed u.flushTrace.debugger
  rw [calls_of_waiting waiting] at calls
  rw [← calls] at found
  obtain ⟨last, d, served, decided⟩ := found.decided
  rw [near.feed] at served
  refine ⟨_, last, d, nextChar_of_waiting waiting, served, decided, ?_⟩
  intro goes_on
  have waited := u.waited_flushTrace.trans (found.waited_after goes_on)
  have machine : u.debugger.machine = { s.machine with cycles := s.machine.cycles + 1 } :=
    s.poised_machine s.machine.instruction
  rw [waited.machine, machine]
  rfl

theorem status_of_running {m : Machine} (running : m.running = true) : m.status = .running := by
  simp [Machine.status, running]

/-- A command that decides leaves the step with the debugger that it made. -/
theorem endsBy_of_decides {earlier : List Call} {c : Call} (sound : s.Sound)
    (running : s.machine.running = true) (given : s.GivenUp t earlier c) (decides : c.Decides)
    (left : t.debugger = { c.after with preempted := false }) :
    s.EndsBy cell .halted ∨ s.EndsBy cell .reloaded := by
  obtain ⟨-, -, -, before⟩ := waited_stepCalls given.place
  have effect := Call.effect_of_succeeds decides.2
  have machine : t.machine = c.after.machine := by
    show t.debugger.machine = c.after.machine
    rw [left]
  obtain ⟨command | command, -⟩ := decides
  · simp only [Call.Effect, command] at effect
    have stopped : t.machine = { s.machine.waiting earlier with running := false } := by
      rw [machine, effect, before]
      rfl
    refine .inl ⟨t, earlier, c, given, command, stopped, ?_⟩
    have faultless : s.machine.fault = none := by
      cases fault : s.machine.fault with
      | none => rfl
      | some f =>
          have still := sound.stopped (by rw [show s.debugger.machine.fault = _ from fault]; rfl)
          exact absurd (running.symm.trans still) Bool.noConfusion
    rw [stopped]
    simp [Machine.status, Machine.waiting, faultless]
  · simp only [Call.Effect, command] at effect
    obtain ⟨path, content, saved, memory, file, read, decoded, cells, after⟩ := effect
    rw [after] at machine
    refine .inr ⟨t, earlier, c, given, command, ⟨path, content, saved, file, read, decoded, ?_⟩, ?_⟩
    · rw [machine]
      exact ⟨rfl, rfl, cells⟩
    · rw [machine]
      exact status_of_running rfl

theorem starved_of_failed {u : Session} {cause : Fault.Cause} {last : Feed} {d : Debugger}
    (step : s.step = u.fail cause) (pending : s.debugger.pending = [])
    (served : Feed.Serves s.feed s.reading s.stepCalls last d)
    (stays : ∀ e ∈ s.stepCalls, ¬e.Decides) (machine : u.machine = s.machine.waiting s.stepCalls)
    (reads : last.nextLine d.host = (.closed, u.feed, u.debugger.host) ∧ cause = .inputClosed ∨
      ∃ e, last.nextLine d.host = (.failed e, u.feed, u.debugger.host) ∧ cause = .inputFailed e) :
    s.EndsBy cell .starved := by
  have pc : u.machine.pc = s.machine.pc := by rw [machine]; rfl
  have stopped : (u.fail cause).1.machine = u.machine.stopped ⟨cause, some u.machine.pc⟩ := rfl
  rw [pc, machine] at stopped
  refine ⟨(u.fail cause).1, ⟨cause, some s.machine.pc⟩, ?_, pending, stays, ?_, rfl, stopped⟩
  · rw [step, ← pc]
    rfl
  · exact ⟨last, d, u.debugger.host, served, reads⟩

/-- A step that waits for a character ends in one of the four ways. -/
theorem exists_way (reached : s.Reachable) (calm : s.feed.Uninterrupted)
    (running : s.machine.running = true) (waits : s.machine.WaitsFor cell) :
    ∃ way, s.EndsBy cell way := by
  cases pending : s.debugger.pending with
  | cons c rest =>
      obtain ⟨t, delivers⟩ := delivers_of_pending reached.sound running waits pending
      exact ⟨.delivered, t, c, delivers⟩
  | nil =>
      obtain ⟨step, -⟩ := step_of_waits running waits
      obtain ⟨result, last, d, asked, served, decided, machine⟩ := searched running waits pending
      have uninterrupted := step_uninterrupted calm
      rw [perform_await, asked] at step
      cases decided with
      | @line next host text reads word stays =>
          obtain ⟨t, c, delivered, fitted, fits, found, feed⟩ :=
            (s.poised s.machine.instruction).flushTrace.deliver_line next { d with host } text
          rw [delivered] at step
          refine ⟨.delivered, _, c, step, ?_, fits, ?_⟩
          · exact .line pending served stays (reads.trans (by rw [← feed]; rfl)) word fitted
          · rw [machine_of_stored, found, machine GuestLine.noConfusion]
            rfl
      | closed reads stays =>
          have waited := machine GuestLine.noConfusion
          exact ⟨.starved, starved_of_failed step pending served stays waited (.inl ⟨reads, rfl⟩)⟩
      | failed reads stays =>
          have waited := machine GuestLine.noConfusion
          exact ⟨.starved,
            starved_of_failed step pending served stays waited (.inr ⟨_, reads, rfl⟩)⟩
      | interrupted =>
          rw [step] at uninterrupted
          exact absurd rfl uninterrupted
      | @preempted earlier c place stays decides left =>
          obtain ⟨-, unread, -, -⟩ := waited_stepCalls place
          rw [left] at served
          have given : s.GivenUp _ earlier c :=
            ⟨step, pending, place, served, stays, decides.2, Call.pending_after unread⟩
          obtain halted | reloaded := endsBy_of_decides reached.sound running given decides rfl
          · exact ⟨_, halted⟩
          · exact ⟨_, reloaded⟩

/-- Which of the four ways it is can be told by the failure of the step and its last command. -/
def way (s : Session) : Way :=
  if s.step.2.isSome then .starved
  else
    match s.stepCalls.getLast? with
    | none => .delivered
    | some c =>
        if c.Decides then if c.command = .halt then .halted else .reloaded
        else .delivered

theorem Takes.stays {c : Char} (h : s.Takes t c) : ∀ e ∈ s.stepCalls, ¬e.Decides := by
  cases h with
  | pending pending calls =>
      rw [calls]
      exact List.forall_mem_nil _
  | line pending served stays => exact stays

theorem GivenUp.way_eq {earlier : List Call} {c : Call} (h : s.GivenUp t earlier c)
    (decides : c.Decides) : s.way = if c.command = .halt then .halted else .reloaded := by
  simp only [way, h.step, h.place, List.getLast?_concat, decides]
  rfl

theorem way_eq_of_endsBy {w : Way} (h : s.EndsBy cell w) : s.way = w := by
  cases w with
  | delivered =>
      obtain ⟨t, c, delivers⟩ := h
      have stays := delivers.takes.stays
      unfold way
      rw [delivers.step]
      cases last : s.stepCalls.getLast? with
      | none => rfl
      | some e => exact if_neg (stays e (List.mem_of_getLast? last))
  | halted =>
      obtain ⟨t, earlier, c, halts⟩ := h
      rw [halts.way_eq ⟨.inl halts.command, halts.succeeds⟩, if_pos halts.command]
  | reloaded =>
      obtain ⟨t, earlier, c, reloads⟩ := h
      rw [reloads.way_eq ⟨.inr reloads.command, reloads.succeeds⟩, reloads.command]
      rfl
  | starved =>
      obtain ⟨t, f, starved⟩ := h
      simp [way, starved.step]

/-- A step of a running machine that waits for a character ends in exactly one of four ways: the
guest gets the character, which is stored, and goes on behind the instruction; a command halts the
machine at the instruction; a command goes on from the snapshot file; or the input ends or fails.
In the first and the last way no command on the way has decided, in the others the last one has, and
nothing behind it is read. -/
theorem exactly_one_way (reached : s.Reachable) (calm : s.feed.Uninterrupted)
    (running : s.machine.running = true) (waits : s.machine.WaitsFor cell) :
    ∃! w, s.EndsBy cell w := by
  obtain ⟨w, ends⟩ := exists_way reached calm running waits
  refine ⟨w, ends, ?_⟩
  intro w' ends'
  rw [← way_eq_of_endsBy ends, ← way_eq_of_endsBy ends']

/-- A session whose guest waits for a character, with commands in front of the next line for it. -/
def pausing : Session where
  debugger := { machine := { memory := Memory.blank.fill 0 [20, 32769] } }
  feed := .ofLines ["!set 100 7", "!load", "!halt", "y"]

theorem pausing_exactly_one_way :
    ∃ t earlier c, pausing.HaltsBy t earlier c ∧ earlier.length = 2 ∧ t.feed = .ofLines ["y"] := by
  have blank : Reachable {} := .fresh rfl rfl
  have loaded := blank.loaded [20, 32769] rfl
  have reached : Reachable pausing := loaded.elsewhere rfl rfl
  have waits : pausing.machine.WaitsFor (Memory.registerCell 1) :=
    ⟨{ opcode := .input, a := 32769 }, rfl, rfl, rfl⟩
  obtain ⟨w, ends, -⟩ := exactly_one_way reached StreamEnd.noConfusion rfl waits
  have halted : pausing.way = .halted := by decide +kernel
  obtain rfl : .halted = w := halted.symm.trans (way_eq_of_endsBy ends)
  obtain ⟨t, earlier, c, halts⟩ := ends
  have lines : pausing.stepCalls.map Call.line = ["!set 100 7", "!load", "!halt"] := by
    decide +kernel
  refine ⟨t, earlier, c, halts, ?_, ?_⟩
  · have length := congrArg List.length lines
    rw [halts.place] at length
    simpa using length
  · obtain ⟨rest, split, left⟩ := Feed.Serves.of_ofLines halts.served
    rw [lines] at split
    cases split
    exact left

end Session

end WordMachine
