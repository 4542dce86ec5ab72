import WordMachine.Proofs.EncodedText
import WordMachine.Proofs.TraceLines
import WordMachine.Proofs.TracedInput

/-!
# Traces are transparent

A run that is traced does what it does without a trace, step by step, as long as nothing else uses
the file that the trace goes to; and the trace holds one record for each step that has an
instruction to start with.
-/

namespace WordMachine

/-- A file that is made is empty and held open. -/
theorem FileTree.createFile_eq_ok {t u : FileTree} {text : String} {file : Handle}
    (created : t.createFile text = .ok (u, file)) :
    ∃ loc, u.opened[file]? = some (.named loc) ∧ u.find? loc = some (.file []) := by
  unfold createFile at created
  simp only [bind, Except.bind, throw, throwThe, MonadExceptOf.throw, pure, Except.pure] at created
  split at created
  · cases created
  · split at created
    · cases created
    · split at created
      · cases created
      · split at created
        · cases created
        · next loc _ =>
            split at created
            · cases created
            · next free =>
                obtain ⟨rfl, rfl⟩ := Prod.mk.inj (Except.ok.inj created)
                have empty := find?_insert_self t (.file []) (ne_nil_of_find? free)
                exact ⟨loc, List.getElem?_concat_length, empty⟩

theorem Trace.text_eq (t : Trace) : t.text = History.render t.lines.toList := by
  unfold Trace.text History.render String.join
  rw [List.foldl_map, ← Array.foldl_toList]
  simp only [String.append_assoc]

/-- The trace holds some lines: in memory, or all but the latest at the end of the file that is set
aside for it, which then has the given content. -/
inductive Trace.Holds : Trace → Option Aside → Bytes → List String → Prop where
  | memory {trace : Trace} {content : Bytes} {lines : List String} (unplaced : trace.place = none)
      (kept : trace.lines.toList = lines) : trace.Holds none content lines
  | file {trace : Trace} {x : Aside} {place : Cursor} {content : Bytes} {filed lines : List String}
      (placed : trace.place = some place) (held : x.held place.file)
      (at_end : place.offset = content.length)
      (written : content = x.plain ++ Text.Utf8.encode (History.render filed))
      (kept : filed ++ trace.lines.toList = lines) : trace.Holds (some x) content lines

/-- The lines that a trace puts in the log. -/
def TraceMode.logged (mode : TraceMode) (lines : List String) : List String :=
  if mode = .log then lines else []

/-- The lines that a trace keeps for its file. -/
def TraceMode.filed (mode : TraceMode) (lines : List String) : List String :=
  if mode = .file then lines else []

namespace Session

/-- The second session is the first one with a trace, which so far has the given lines. -/
structure Beside (mode : TraceMode) (a : Option Aside) (lines : List String) (s t : Session) :
    Prop where
  untraced : s.trace.mode = .off
  unplaced : s.trace.place = none
  traced : t.trace.mode = mode
  beside : ∃ content, s.debugger.Beside a content (mode.logged lines) t.debugger ∧
    t.trace.Holds a content (mode.filed lines)
  feed : t.feed = s.feed
  output : t.output = s.output
  spares : s.debugger.Spares a
  feed_spares : s.feed.Spares a

namespace Beside

variable {mode : TraceMode} {a : Option Aside} {lines : List String} {s t : Session}

theorem machine (h : Beside mode a lines s t) : t.machine = s.machine := by
  obtain ⟨content, debugger, -⟩ := h.beside
  exact debugger.machine

theorem pending (h : Beside mode a lines s t) : t.debugger.pending = s.debugger.pending := by
  obtain ⟨content, ⟨host, same, -⟩, -⟩ := h.beside
  rw [same]
  rfl

theorem map (h : Beside mode a lines s t) (f : Debugger → Debugger)
    (same : ∀ {content : Bytes} {lines : List String} {e : Debugger},
      s.debugger.Beside a content lines e → (f s.debugger).Beside a content lines (f e))
    (setting : (f s.debugger).setting = s.debugger.setting) :
    Beside mode a lines (s.mapDebugger f) (t.mapDebugger f) := by
  obtain ⟨content, debugger, holds⟩ := h.beside
  exact ⟨h.untraced, h.unplaced, h.traced, ⟨content, same debugger, holds⟩, h.feed, h.output,
    h.spares.of_setting setting, h.feed_spares⟩

theorem mapMachine (h : Beside mode a lines s t) (f : Machine → Machine) :
    Beside mode a lines (s.mapMachine f) (t.mapMachine f) := by
  refine h.map (fun d => { d with machine := f d.machine }) ?_ rfl
  rintro content lines e ⟨host, rfl, beside⟩
  exact ⟨host, rfl, beside⟩

theorem flushTrace (h : Beside mode a lines s t) :
    s.flushTrace = s ∧ Beside mode a lines s t.flushTrace := by
  have unchanged : s.flushTrace = s := by
    unfold Session.flushTrace
    rw [h.unplaced]
  refine ⟨unchanged, ?_⟩
  obtain ⟨content, ⟨host, same, beside⟩, holds⟩ := h.beside
  unfold Session.flushTrace
  cases holds with
  | memory unplaced kept =>
      rw [unplaced]
      exact h
  | @file x place content filed _ placed held at_end written kept =>
      have host_same : t.debugger.host = host := by rw [same, Debugger.withHost_host]
      obtain ⟨files, moved⟩ :=
        beside.files.writeAt held at_end (Text.Utf8.encode t.trace.text)
      have written' : content ++ Text.Utf8.encode t.trace.text =
          x.plain ++ Text.Utf8.encode (History.render (filed ++ t.trace.lines.toList)) := by
        rw [written, Trace.text_eq, History.render_append, Text.Utf8.encode_append,
          List.append_assoc]
      rw [placed]
      dsimp only
      rw [host_same, moved]
      have after : Host.Beside (some x) (content ++ Text.Utf8.encode t.trace.text)
          (mode.logged lines) s.debugger.host
          { host with files := (host.files.writeAt place (Text.Utf8.encode t.trace.text)).1 } :=
        ⟨files, beside.journal⟩
      refine ⟨h.untraced, h.unplaced, h.traced, ⟨_, ⟨_, ?_, after⟩, ?_⟩, h.feed, h.output,
        h.spares, h.feed_spares⟩
      · rw [same]
        rfl
      · exact .file rfl held rfl written' ((List.append_nil _).trans kept)

theorem deliver {r r' : Feed × Debugger × GuestLine} {content : Bytes}
    (h : Beside mode a lines s t) (b : AwaitedBeside a content (mode.logged lines) r r')
    (holds : t.trace.Holds a content (mode.filed lines)) :
    Beside mode a lines (s.deliver r).1 (t.deliver r').1 ∧
      (t.deliver r').2 = (s.deliver r).2 := by
  obtain ⟨feed, d, line⟩ := r
  obtain ⟨feed', e, line'⟩ := r'
  obtain ⟨debugger, same_feed, same_line, spares, feed_spares⟩ := b
  obtain rfl : feed' = feed := same_feed
  obtain rfl : line' = line := same_line
  have left (d : Debugger) (e : Debugger) (beside : d.Beside a content (mode.logged lines) e)
      (spares : d.Spares a) :
      Beside mode a lines { s with feed := feed', debugger := d }
        { t with feed := feed', debugger := e } :=
    ⟨h.untraced, h.unplaced, h.traced, ⟨content, beside, holds⟩, rfl, h.output, spares,
      feed_spares⟩
  cases line' with
  | preempted | failed cause | interrupted => exact ⟨left d e debugger spares, rfl⟩
  | line text =>
      refine ⟨left _ _ ?_ ?_, rfl⟩
      · cases text.toList.all (·.toNat ≤ 0xFFFF) with
        | true =>
            obtain ⟨host, rfl, beside⟩ := debugger
            exact ⟨host, rfl, beside⟩
        | false =>
            obtain ⟨host, rfl, beside⟩ := debugger
            exact ⟨_, rfl, beside.log _ _ _⟩
      · cases text.toList.all (·.toNat ≤ 0xFFFF) <;> exact spares.of_setting rfl

theorem nextChar (h : Beside mode a lines s t) :
    Beside mode a lines s.nextChar.1 t.nextChar.1 ∧ t.nextChar.2 = s.nextChar.2 := by
  cases pending : s.debugger.pending with
  | cons c rest =>
      rw [nextChar_of_pending pending, nextChar_of_pending (h.pending.trans pending)]
      refine ⟨h.map (fun d => { d with pending := rest }) ?_ rfl, rfl⟩
      rintro content lines e ⟨host, rfl, beside⟩
      exact ⟨host, rfl, beside⟩
  | nil =>
      rw [nextChar_of_waiting pending, nextChar_of_waiting (h.pending.trans pending)]
      obtain ⟨unchanged, flushed⟩ := h.flushTrace
      obtain ⟨content, beside, holds⟩ := flushed.beside
      rw [unchanged, h.feed]
      exact flushed.deliver (awaitLine_beside beside h.spares h.feed_spares) holds

theorem fail (h : Beside mode a lines s t) (cause : Fault.Cause) :
    Beside mode a lines (s.fail cause).1 (t.fail cause).1 ∧
      (t.fail cause).2 = (s.fail cause).2 := by
  let fault : Fault := { cause, pc := some s.machine.pc }
  have stopped := h.mapMachine (·.stopped fault)
  have logged := stopped.map (·.log .error .machine fault.title) (fun b => b.log _ _ _) rfl
  unfold Session.fail
  rw [h.machine]
  exact ⟨logged, rfl⟩

theorem ticked (h : Beside mode a lines s t) : Beside mode a lines s.ticked t.ticked :=
  h.mapMachine fun m => { m with cycles := m.cycles + 1 }

/-- The record of an instruction is added to the trace. -/
theorem traced_add (h : Beside mode a lines s t) (tracing : mode ≠ .off) (i : Instruction) :
    Beside mode a
      (lines ++ [s!"[TRACE] pc={s.machine.pc} " ++ Disassembly.fetched i s.machine.memory])
      (s.traced i) (t.traced i) := by
  have unchanged : s.traced i = s := by
    unfold Session.traced
    rw [h.untraced]
  obtain ⟨content, debugger, holds⟩ := h.beside
  rw [unchanged]
  unfold Session.traced
  rw [h.traced, h.machine]
  generalize s!"[TRACE] pc={s.machine.pc} " ++ Disassembly.fetched i s.machine.memory = line
  cases mode with
  | off => exact absurd rfl tracing
  | log =>
      obtain ⟨host, same, beside⟩ := debugger
      have recorded : Host.Beside a content (lines ++ [line]) s.debugger.host
          (host.log .debug .machine line) := ⟨beside.files, beside.journal.line line⟩
      refine ⟨h.untraced, h.unplaced, h.traced, ⟨content, ⟨_, ?_, recorded⟩, holds⟩, h.feed,
        h.output, h.spares, h.feed_spares⟩
      show t.debugger.log _ _ _ = _
      rw [same]
      rfl
  | file =>
      have grown : (t.trace.lines.push line).toList = t.trace.lines.toList ++ [line] :=
        Array.toList_push
      refine ⟨h.untraced, h.unplaced, h.traced, ⟨content, debugger, ?_⟩, h.feed, h.output,
        h.spares, h.feed_spares⟩
      cases holds with
      | memory unplaced kept => exact .memory unplaced (by rw [grown, kept]; rfl)
      | file placed held at_end written kept =>
          exact .file placed held at_end written (by rw [grown, ← List.append_assoc, kept]; rfl)

theorem halt (h : Beside mode a lines s t) :
    Beside mode a lines (s.mapDebugger Debugger.halt) (t.mapDebugger Debugger.halt) :=
  h.map Debugger.halt (fun b => b.halt) s.debugger.halt_setting

theorem perform (h : Beside mode a lines s t) (next : Int) (effect : Effect) :
    Beside mode a lines (s.perform next effect).1 (t.perform next effect).1 ∧
      (t.perform next effect).2 = (s.perform next effect).2 := by
  cases effect with
  | emit unit =>
      rw [perform_emit, perform_emit, h.output]
      split
      · have applied := h.mapMachine (·.apply next (.emit unit))
        exact ⟨⟨h.untraced, h.unplaced, h.traced, applied.beside, h.feed, rfl, applied.spares,
          h.feed_spares⟩, rfl⟩
      · exact ⟨h, rfl⟩
  | await cell =>
      obtain ⟨heard, same⟩ := h.nextChar
      rw [perform_await, perform_await]
      revert heard same
      rcases s.nextChar with ⟨s', delivery⟩
      rcases t.nextChar with ⟨t', delivery'⟩
      intro heard same
      obtain rfl : delivery' = delivery := same
      cases delivery' with
      | char unit => exact ⟨heard.mapMachine (·.apply next (.store cell unit)), rfl⟩
      | preempted => exact ⟨heard, rfl⟩
      | failed cause => exact heard.fail cause
      | interrupted => exact ⟨heard, rfl⟩
  | halt => exact ⟨(h.mapMachine ({ · with pc := next })).halt, rfl⟩
  | leave =>
      have moved := h.mapMachine ({ · with pc := next })
      have logged := moved.map (·.log .debug .machine "ret with empty stack")
        (fun b => b.log _ _ _) rfl
      exact ⟨logged.halt, rfl⟩
  | _ => exact ⟨h.mapMachine (·.apply next _), rfl⟩

/-- A step that is traced does the same, and leaves the record that it is to leave. -/
theorem step (h : Beside mode a lines s t) (tracing : mode ≠ .off)
    (running : s.machine.running = true) :
    Beside mode a (lines ++ s.machine.traceLine?.toList) s.step.1 t.step.1 ∧
      t.step.2 = s.step.2 := by
  unfold Session.step
  simp only [running, h.machine, Bool.not_true, Bool.false_eq_true, if_false]
  cases address : s.machine.codeAddress with
  | error cause =>
      have silent : s.machine.traceLine? = none := by
        simp [Machine.traceLine?, Machine.fetched, address, bind, Except.bind]
      rw [silent, Option.toList_none, List.append_nil]
      exact h.fail cause
  | ok pc =>
      have ticked := h.ticked
      have memory : s.ticked.machine.memory = s.machine.memory := rfl
      simp only [ticked.machine, memory]
      cases found : s.machine.memory.instructionAt pc with
      | error cause =>
          have silent : s.machine.traceLine? = none := by
            simp [Machine.traceLine?, Machine.fetched, address, found, bind, Except.bind]
          rw [silent, Option.toList_none, List.append_nil]
          exact ticked.fail cause
      | ok i =>
          have told : s.machine.traceLine? = some
              (s!"[TRACE] pc={s.machine.pc} " ++ Disassembly.fetched i s.machine.memory) := by
            simp [Machine.traceLine?, Machine.fetched, address, found, bind, Except.bind]
          have traced := ticked.traced_add tracing i
          rw [told, Option.toList_some]
          simp only [traced.machine]
          cases i.effect (s.ticked.traced i).machine.memory (s.ticked.traced i).machine.stack with
          | error cause => exact traced.fail cause
          | ok effect => exact traced.perform _ effect

end Beside

/-- The machines that the steps of a run of at most so many steps start from, in order. -/
def started (s : Session) : Nat → List Machine
  | 0 => []
  | n + 1 =>
      if s.machine.running then
        s.machine ::
          match s.step with
          | (t, none) => t.started n
          | (_, some _) => []
      else []

private theorem filterMap_cons_append {α β : Type} (f : α → Option β) (x : α) (xs : List α) :
    (x :: xs).filterMap f = (f x).toList ++ xs.filterMap f := by
  rw [List.filterMap_cons]
  cases f x <;> rfl

/-- A run that is traced does the same, and leaves the records of its steps. -/
theorem Beside.run {mode : TraceMode} {a : Option Aside} {lines : List String} {s t : Session}
    (h : Beside mode a lines s t) (tracing : mode ≠ .off) (n : Nat) :
    Beside mode a (lines ++ (s.started n).filterMap Machine.traceLine?) (s.run n).1 (t.run n).1 ∧
      (t.run n).2 = (s.run n).2 := by
  induction n generalizing s t lines with
  | zero =>
      rw [started, List.filterMap_nil, List.append_nil]
      exact ⟨h, rfl⟩
  | succ n ih =>
      have same : t.machine.running = s.machine.running := by rw [h.machine]
      cases running : s.machine.running with
      | false =>
          rw [run_of_stopped running, run_of_stopped (same.trans running), started, running]
          simpa using h
      | true =>
          obtain ⟨next, ends⟩ := h.step tracing running
          rcases s_step : s.step with ⟨s', failure⟩
          rcases t_step : t.step with ⟨t', failure'⟩
          rw [s_step, t_step] at next ends
          obtain rfl : failure' = failure := ends
          rw [started, if_pos running, filterMap_cons_append, ← List.append_assoc, s_step]
          cases failure' with
          | some failure =>
              rw [run_succ_of_failure running s_step,
                run_succ_of_failure (same.trans running) t_step]
              exact ⟨by simpa using next, rfl⟩
          | none =>
              obtain ⟨later, count⟩ := ih next
              rw [run_succ running s_step, run_succ (same.trans running) t_step]
              exact ⟨later, by rw [count]⟩

/-- The file at a location, seen from a session. -/
def aside (s : Session) (loc : Location) (plain : Bytes) : Aside where
  cwd := s.debugger.host.files.cwd
  loc := loc
  plain := plain
  held file := s.debugger.host.files.opened[file]? = some (.named loc)

/-- A trace that a session can be given: in the log, in memory, or at the end of a file that is held
open for it, and that nothing else of the session uses. -/
inductive Admits (s : Session) : Option Aside → Trace → Prop where
  | log : s.Admits none { mode := .log }
  | memory : s.Admits none { mode := .file }
  | file {place : Cursor} {loc : Location} {plain : Bytes}
      (opened : s.debugger.host.files.opened[place.file]? = some (.named loc))
      (found : s.debugger.host.files.find? loc = some (.file plain))
      (at_end : place.offset = plain.length)
      (debugger : s.debugger.Spares (some (s.aside loc plain)))
      (feed : s.feed.Spares (some (s.aside loc plain))) :
      s.Admits (some (s.aside loc plain)) { mode := .file, place := some place }

/-- The trace that the command line opens goes nowhere, or to the end of a file that is held open
for it. -/
theorem openTrace_held {o : CommandLine.Options} {h h' : Host} {rank : Nat} {trace : Trace}
    (opened : CommandLine.Job.openTrace o h rank = .ok (h', trace)) :
    trace.place = none ∨ ∃ place loc, trace = { mode := .file, place := some place } ∧
      h'.files.opened[place.file]? = some (.named loc) ∧
      h'.files.find? loc = some (.file []) ∧ place.offset = 0 := by
  unfold CommandLine.Job.openTrace at opened
  split at opened
  · obtain ⟨-, rfl⟩ := Prod.mk.inj (Except.ok.inj opened)
    exact .inl rfl
  · obtain ⟨-, rfl⟩ := Prod.mk.inj (Except.ok.inj opened)
    exact .inl rfl
  · split at opened
    · next files file created =>
        obtain ⟨rfl, rfl⟩ := Prod.mk.inj (Except.ok.inj opened)
        obtain ⟨loc, held, empty⟩ := FileTree.createFile_eq_ok created
        exact .inr ⟨_, loc, rfl, held, empty, rfl⟩
    · cases opened

/-- The session with another trace. -/
def withTrace (s : Session) (trace : Trace) : Session := { s with trace }

/-- What of two sessions is the same although the second one is traced: all of the machine, the rest
of its current line, its output, what the operator was told and all files but the trace's own. -/
structure SameButTrace (a : Option Aside) (s t : Session) : Prop where
  machine : t.machine = s.machine
  pending : t.debugger.pending = s.debugger.pending
  output : t.output = s.output
  feed : t.feed = s.feed
  told : t.debugger.host.journal.reports = s.debugger.host.journal.reports
  files : ∀ loc, (∀ x ∈ a, loc ≠ x.loc) →
    t.debugger.host.files.find? loc = s.debugger.host.files.find? loc

/-- Where the records are that a trace was given: among the entries of the log, which else is as in
the other session, or else in memory, or behind what its file held before. -/
def HoldsRecords (trace : Trace) (a : Option Aside) (lines : List String) (s t : Session) : Prop :=
  if trace.mode = .log then
    Journal.Woven lines s.debugger.host.journal t.debugger.host.journal
  else
    t.debugger.host.journal = s.debugger.host.journal ∧
      match a with
      | none => t.trace.lines.toList = lines
      | some x => t.flushTrace.debugger.host.files.find? x.loc =
          some (.file (x.plain ++ Text.Utf8.encode (History.render lines)))

namespace Beside

variable {mode : TraceMode} {a : Option Aside} {lines : List String} {s t : Session}

theorem sameButTrace (h : Beside mode a lines s t) : SameButTrace a s t := by
  have machine := h.machine
  have pending := h.pending
  obtain ⟨content, ⟨host, same, beside⟩, -⟩ := h.beside
  refine ⟨machine, pending, h.output, h.feed, ?_, ?_⟩
  · rw [same]
    exact beside.journal.reports
  · rw [same]
    exact beside.files.elsewhere

/-- In the end all lines are in the file that is set aside for them. -/
theorem find?_flushTrace {x : Aside} (h : Beside .file (some x) lines s t) :
    t.flushTrace.debugger.host.files.find? x.loc =
      some (.file (x.plain ++ Text.Utf8.encode (History.render lines))) := by
  have emptied : t.flushTrace.trace.lines = #[] := by
    obtain ⟨content, -, holds⟩ := h.beside
    cases holds with
    | file placed =>
        unfold Session.flushTrace
        rw [placed]
  obtain ⟨content, ⟨host, same, beside⟩, holds⟩ := h.flushTrace.2.beside
  have at_loc := beside.files.written x rfl
  cases holds with
  | file placed held at_end written kept =>
      rw [emptied, List.append_nil] at kept
      rw [same, Debugger.withHost_host, at_loc, written, kept]
      rfl

theorem holdsRecords (h : Beside mode a lines s t) (tracing : mode ≠ .off) {trace : Trace}
    (same_mode : trace.mode = mode) : HoldsRecords trace a lines s t := by
  unfold HoldsRecords
  rw [same_mode]
  obtain ⟨content, ⟨host, same, beside⟩, holds⟩ := h.beside
  have journal : t.debugger.host.journal = host.journal := by rw [same]; rfl
  cases mode with
  | off => exact absurd rfl tracing
  | log =>
      rw [if_pos rfl, journal]
      exact beside.journal
  | file =>
      rw [if_neg (by decide), journal]
      refine ⟨beside.journal.eq rfl, ?_⟩
      cases a with
      | none =>
          cases holds with
          | memory unplaced kept => exact kept
      | some x => exact h.find?_flushTrace

end Beside

theorem beside_of_admits {s : Session} {a : Option Aside} {trace : Trace}
    (admits : s.Admits a trace) :
    Beside trace.mode a [] (s.withTrace {}) (s.withTrace trace) := by
  -- nothing is told or written yet, so both hosts are the same
  have at_first {content : Bytes} (files : s.debugger.host.files.SameBut a content
      s.debugger.host.files) : s.debugger.Beside a content [] s.debugger :=
    ⟨s.debugger.host, rfl, files, .start _⟩
  cases admits with
  | log | memory =>
      exact ⟨rfl, rfl, rfl, ⟨[], at_first (.unused _ _), .memory rfl rfl⟩, rfl, rfl,
        s.debugger.spares_none, s.feed.spares_none⟩
  | @file place loc plain opened found at_end debugger feed =>
      have files : s.debugger.host.files.SameBut (some (s.aside loc plain)) plain
          s.debugger.host.files :=
        { cwd := rfl
          opened := rfl
          elsewhere := fun _ _ => rfl
          seen := by
            intro x mem
            obtain rfl := Option.some.inj mem
            rfl
          held := by
            intro x mem file
            obtain rfl := Option.some.inj mem
            rfl
          plain := by
            intro x mem
            obtain rfl := Option.some.inj mem
            exact found
          written := by
            intro x mem
            obtain rfl := Option.some.inj mem
            exact found }
      have silent : Text.Utf8.encode (History.render []) = [] := ByteArray.toList_empty
      have written : plain = plain ++ Text.Utf8.encode (History.render []) := by
        rw [silent, List.append_nil]
      exact ⟨rfl, rfl, rfl, ⟨plain, at_first files, .file rfl opened at_end written rfl⟩, rfl, rfl,
        debugger, feed⟩

/-- Every run of a session does the same, step by step, with a trace that the session admits and
without one, and the trace holds one record for each of the steps that have an instruction to start
with, and no other. -/
theorem run_traced (s : Session) {a : Option Aside} {trace : Trace} (admits : s.Admits a trace)
    (n : Nat) :
    let plain := (s.withTrace {}).run n
    let traced := (s.withTrace trace).run n
    let machines := (s.withTrace {}).started n
    traced.2 = plain.2 ∧ SameButTrace a plain.1 traced.1 ∧
      (∃ lines, Machine.Recorded machines lines ∧
        HoldsRecords trace a lines plain.1 traced.1) ∧
      ∀ m ∈ machines, ∀ text, m.Traceable →
        Disassembly.line m.words m.pc (some m.registerContents) = .ok text → m.Described text := by
  intro plain traced machines
  have tracing : trace.mode ≠ .off := by cases admits <;> simp
  obtain ⟨after, ends⟩ := (beside_of_admits admits).run tracing n
  rw [List.nil_append] at after
  refine ⟨ends, after.sameButTrace, ⟨_, Machine.recorded_filterMap machines, ?_⟩, ?_⟩
  · exact after.holdsRecords tracing rfl
  · intro m _ text traceable line
    exact Machine.described_of_line traceable line

/-- A guest that waits for a character and writes it, with an empty file held open twice: once for
a trace, and once to read lines from. -/
def eavesdropping : Session where
  debugger := {
    machine := { memory := Memory.blank.fill 0 [20, 3, 19, 0] }
    host := { files := { nodes := [(["t"], .file [])], opened := [.named ["t"], .named ["t"]] } } }
  feed := .chain [.stream (.ofFile 1), .ofLines ["x"]]

/-- The same guest, which hears typed lines only. -/
def recording : Session := { eavesdropping with feed := .ofLines ["!dump", "x"] }

private theorem eavesdropping_spares :
    eavesdropping.debugger.Spares (some (eavesdropping.aside ["t"] [])) := by
  constructor
  all_goals
    intro path named
    obtain rfl := Option.some.inj named
    constructor
    · intro x mem
      obtain rfl := Option.some.inj mem
      decide
    · intro beside besides x mem
      obtain rfl := Option.some.inj mem
      obtain rfl := Option.some.inj besides
      decide

/-- This guest does not notice that it is traced, nor does the dump that is asked for. -/
theorem recording_run_traced :
    let trace : Trace := { mode := .file, place := some { file := 0 } }
    let x := recording.aside ["t"] []
    recording.Admits (some x) trace ∧
      SameButTrace (some x) ((recording.withTrace {}).run 2).1
        ((recording.withTrace trace).run 2).1 := by
  intro trace x
  have admits : recording.Admits (some x) trace :=
    .file (by decide) (by decide) rfl eavesdropping_spares trivial
  obtain ⟨-, same, -⟩ := run_traced recording admits 2
  exact ⟨admits, same⟩

/-- But a guest that is given the file of its own trace to read hears what is traced. -/
theorem eavesdropping_disturbed :
    let trace : Trace := { mode := .file, place := some { file := 0 } }
    let x := eavesdropping.aside ["t"] []
    let files := eavesdropping.debugger.host.files
    files.opened[0]? = some (.named x.loc) ∧ files.find? x.loc = some (.file x.plain) ∧
      eavesdropping.debugger.Spares (some x) ∧
      ¬SameButTrace (some x) ((eavesdropping.withTrace {}).run 2).1
        ((eavesdropping.withTrace trace).run 2).1 := by
  intro trace x files
  refine ⟨by decide, by decide, eavesdropping_spares, fun same => ?_⟩
  have output := congrArg Output.written same.output
  revert output
  decide +kernel

end Session

end WordMachine
