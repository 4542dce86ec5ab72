import WordMachine.Debugger.Command
import WordMachine.Disassembly
import WordMachine.Input.Feed

/-!
# Sessions

A machine at work: it reads its input through the debugger, which swallows command lines, and
writes output and, if asked to, a trace. A step carries out one instruction; a fault stops the
machine at that instruction. Trace lines that belong into a file are put there before anything else
looks at the files, that is before a line of input is read.
-/

namespace WordMachine

/-- The guest's output so far. An output that takes encoded text only refuses lone surrogates. -/
structure Output where
  written : Array Word := #[]
  encodes : Bool := false

def Output.accepts (o : Output) (unit : Word) : Bool :=
  !(o.encodes && 0xD800 ≤ unit && unit ≤ 0xDFFF)

@[inline] def Output.write (o : Output) (unit : Word) : Output :=
  { o with written := o.written.push unit }

def Output.text (o : Output) : String :=
  o.written.foldl (fun text unit => text.push (Char.ofNat unit.toNat)) ""

/-- Where trace lines go. -/
inductive TraceMode where
  | off
  | log
  | file
  deriving DecidableEq, Repr

/-- The trace lines that were written, but for those that are in their file already, and the place
of the next one there. -/
structure Trace where
  mode : TraceMode := .off
  lines : Array String := #[]
  place : Option Cursor := none

def Trace.text (t : Trace) : String := t.lines.foldl (fun text line => text ++ line ++ "\n") ""

structure Session where
  debugger : Debugger := {}
  feed : Feed := .chain []
  output : Output := {}
  trace : Trace := {}

/-- The character that takes the place of one beyond sixteen bits. -/
def replacementChar : Char := '\uFFFD'

/-- A line as the guest reads it. -/
def fitLine (line : List Char) : List Char :=
  line.map fun c => if c.toNat ≤ 0xFFFF then c else replacementChar

/-- The characters of a fitted line fit into cells. -/
theorem toNat_le_of_mem_fitLine {line : List Char} {c : Char} (mem : c ∈ fitLine line) :
    c.toNat ≤ 0xFFFF := by
  obtain ⟨original, -, rfl⟩ := List.mem_map.mp mem
  split
  · next fits => exact fits
  · decide

/-- What the search for the guest's next line ends with. -/
inductive GuestLine where
  | line (text : String)
  | preempted
  | failed (cause : Fault.Cause)
  | interrupted
  deriving DecidableEq, Repr

/-- The next line for the guest. Lines that name a command are run on the way, until one of them
gives up the waiting instruction. -/
def awaitLine (feed : Feed) (d : Debugger) : Feed × Debugger × GuestLine :=
  match _reads : feed.nextLine d.host with
  | (.closed, feed, host) => (feed, { d with host }, .failed .inputClosed)
  | (.failed e, feed, host) => (feed, { d with host }, .failed (.inputFailed e))
  | (.interrupted, feed, host) => (feed, { d with host }, .interrupted)
  | (.line text, next, host) =>
      match Command.ofName? (commandWord text) with
      | none => (next, { d with host }, .line text)
      | some command =>
          let after := command.dispatch { d with host, preempted := false } text
          if after.preempted then (next, { after with preempted := false }, .preempted)
          else awaitLine next after
termination_by feed.size
decreasing_by
  have := @Feed.size_nextLine_lt feed d.host text (by rw [_reads])
  rw [_reads] at this
  exact this

/-- What asking for a character brings. -/
inductive Delivery where
  | char (unit : Word)
  | preempted
  | failed (cause : Fault.Cause)
  | interrupted
  deriving DecidableEq, Repr

namespace Session

@[inline] def mapDebugger (s : Session) (f : Debugger → Debugger) : Session :=
  { s with debugger := f s.debugger }

@[inline] def mapMachine (s : Session) (f : Machine → Machine) : Session :=
  { s with debugger := { s.debugger with machine := f s.debugger.machine } }

def machine (s : Session) : Machine := s.debugger.machine

/-- The session with its trace lines in the file that is held open for them, if there is one. The
file takes every line; a device that refuses some is left out. -/
def flushTrace (s : Session) : Session :=
  match s.trace.place with
  | none => s
  | some place =>
      let h := s.debugger.host
      let (files, place) := h.files.writeAt place (Text.Utf8.encode s.trace.text)
      { s with
        debugger := { s.debugger with host := { h with files } }
        trace := { s.trace with lines := #[], place := some place } }

/-- What the search for the guest's next line brings: the first character of the line, the rest of
which becomes the current line. -/
def deliver (s : Session) : Feed × Debugger × GuestLine → Session × Delivery
  | (feed, debugger, .preempted) => ({ s with feed, debugger }, .preempted)
  | (feed, debugger, .failed cause) => ({ s with feed, debugger }, .failed cause)
  | (feed, debugger, .interrupted) => ({ s with feed, debugger }, .interrupted)
  | (feed, debugger, .line text) =>
      let line := text.toList
      let debugger :=
        if line.all (·.toNat ≤ 0xFFFF) then debugger
        else debugger.log .warning .input "replacing characters above U+FFFF in input line"
      let pending := fitLine line ++ ['\n']
      ({ s with feed, debugger := { debugger with pending := pending.tail } },
        .char (UInt16.ofNat (pending.head (by simp [pending])).toNat))

/-- The first character of the current line, which is read when there is none. -/
def nextChar (s : Session) : Session × Delivery :=
  match s.debugger.pending with
  | c :: rest =>
      (s.mapDebugger fun d => { d with pending := rest }, .char (UInt16.ofNat c.toNat))
  | [] => s.flushTrace.deliver (awaitLine s.feed s.flushTrace.debugger)

def fail (s : Session) (cause : Fault.Cause) : Session × Option Failure :=
  let fault : Fault := { cause, pc := some s.machine.pc }
  let s := s.mapMachine (·.stopped fault)
  (s.mapDebugger (·.log .error .machine fault.title), some (.fault fault))

def ticked (s : Session) : Session := s.mapMachine fun m => { m with cycles := m.cycles + 1 }

/-- The session with the trace line of an instruction, which is never refused. -/
def traced (s : Session) (i : Instruction) : Session :=
  match s.trace.mode with
  | .off => s
  | mode =>
      let line := s!"[TRACE] pc={s.machine.pc} " ++ Disassembly.fetched i s.machine.memory
      match mode with
      | .file => { s with trace := { s.trace with lines := s.trace.lines.push line } }
      | _ => s.mapDebugger (·.log .debug .machine line)

/-- Carries out an effect of the instruction before `next`. -/
def perform (s : Session) (next : Int) : Effect → Session × Option Failure
  | .emit unit =>
      if s.output.accepts unit then
        ({ s with output := s.output.write unit }.mapMachine (·.apply next (.emit unit)), none)
      else (s, some (.unencodable unit))
  | .await cell =>
      match s.nextChar with
      | (s, .char unit) => (s.mapMachine (·.apply next (.store cell unit)), none)
      | (s, .preempted) => (s, none)
      | (s, .failed cause) => s.fail cause
      | (s, .interrupted) => (s, some .interrupted)
  | .halt =>
      (s.mapDebugger fun d => { d with machine := { d.machine with pc := next } }.halt, none)
  | .leave =>
      let leaving (d : Debugger) : Debugger :=
        ({ d with machine := { d.machine with pc := next } }.log .debug .machine
          "ret with empty stack").halt
      (s.mapDebugger leaving, none)
  | effect => (s.mapMachine (·.apply next effect), none)

def step (s : Session) : Session × Option Failure :=
  if !s.machine.running then (s, none)
  else
    match s.machine.codeAddress with
    | .error cause => s.fail cause
    | .ok pc =>
        let s := s.ticked
        match s.machine.memory.instructionAt pc with
        | .error cause => s.fail cause
        | .ok i =>
            let s := s.traced i
            match i.effect s.machine.memory s.machine.stack with
            | .error cause => s.fail cause
            | .ok effect => s.perform (pc + i.opcode.size : Nat) effect

/-- At most so many steps, after `count` others. -/
def runOnto : Nat → Session → Nat → Session × Nat × Option Failure
  | 0, s, count => (s, count, none)
  | n + 1, s, count =>
      if !s.machine.running then (s, count, none)
      else
        match s.step with
        | (s, none) => runOnto n s (count + 1)
        | (s, some failure) => (s, count, some failure)

/-- At most `n` steps, with the number of those that were completed and the failure that ended the
run, if one did. -/
def run (s : Session) (n : Nat) : Session × Nat × Option Failure := runOnto n s 0

theorem runOnto_eq (n : Nat) (s : Session) (count : Nat) :
    runOnto n s count = ((s.run n).1, count + (s.run n).2.1, (s.run n).2.2) := by
  unfold run
  induction n generalizing s count with
  | zero => rfl
  | succ n ih =>
      unfold runOnto
      split
      · rfl
      · split
        · rw [ih, ih _ (0 + 1)]
          simp only [Prod.mk.injEq, and_true, true_and]
          omega
        · rfl

@[simp] theorem run_zero (s : Session) : s.run 0 = (s, 0, none) := rfl

theorem run_of_stopped {s : Session} (h : s.machine.running = false) (n : Nat) :
    s.run n = (s, 0, none) := by
  cases n with
  | zero => rfl
  | succ n => simp [run, runOnto, h]

theorem run_succ {s t : Session} (h : s.machine.running = true) (step : s.step = (t, none))
    (n : Nat) : s.run (n + 1) = ((t.run n).1, (t.run n).2.1 + 1, (t.run n).2.2) := by
  rw [run, runOnto]
  simp only [h, Bool.not_true, Bool.false_eq_true, if_false, step]
  rw [runOnto_eq, Nat.zero_add, Nat.add_comm 1]

theorem run_succ_of_failure {s t : Session} {failure : Failure} (h : s.machine.running = true)
    (step : s.step = (t, some failure)) (n : Nat) : s.run (n + 1) = (t, 0, some failure) := by
  simp [run, runOnto, h, step]

end Session

end WordMachine
