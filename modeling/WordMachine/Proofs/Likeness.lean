import WordMachine.Proofs.Retelling

/-!
# Sessions that run alike

Two sessions are alike when they differ at most in what they have said, counted and written so far.
Alike sessions stay alike for ever: every step fails in both or in neither, and writes the same.
-/

namespace WordMachine.Session

/-- Two sessions that have written `p` and `q` and then the same, with equal machines but for the
count of cycles, and in the same surroundings. -/
structure Alike (p q : Array Word) (s t : Session) : Prop where
  debugger : ∃ n j b, t.debugger = (s.debugger.retold n j).marked b
  feed : t.feed = s.feed
  written : ∃ o, s.output.written = p ++ o ∧ t.output.written = q ++ o
  encodes : t.output.encodes = s.output.encodes
  trace : t.trace = s.trace ∨ s.trace.place = none ∧ t.trace.place = none

namespace Alike

variable {p q : Array Word} {s t : Session}

theorem machine (h : s.Alike p q t) : ∃ n, t.machine = { s.machine with cycles := n } := by
  obtain ⟨n, j, b, debugger⟩ := h.debugger
  exact ⟨n, congrArg Debugger.machine debugger⟩

theorem pending (h : s.Alike p q t) : t.debugger.pending = s.debugger.pending := by
  obtain ⟨n, j, b, debugger⟩ := h.debugger
  rw [debugger]
  rfl

theorem map (h : s.Alike p q t) (f : Debugger → Debugger)
    (same : ∀ n j b, ∃ n' j' b',
      f ((s.debugger.retold n j).marked b) = ((f s.debugger).retold n' j').marked b') :
    (s.mapDebugger f).Alike p q (t.mapDebugger f) := by
  obtain ⟨n, j, b, debugger⟩ := h.debugger
  obtain ⟨n', j', b', changed⟩ := same n j b
  rw [← debugger] at changed
  exact ⟨⟨n', j', b', changed⟩, h.feed, h.written, h.encodes, h.trace⟩

theorem flushTrace (h : s.Alike p q t) : s.flushTrace.Alike p q t.flushTrace := by
  obtain ⟨n, j, b, debugger⟩ := h.debugger
  have files : t.debugger.host.files = s.debugger.host.files := by
    rw [debugger]
    rfl
  rcases h.trace with same | ⟨s_none, t_none⟩
  · unfold Session.flushTrace
    rw [same]
    cases s.trace.place with
    | none => exact h
    | some place =>
        dsimp only
        rw [files]
        exact ⟨⟨n, j, b, by rw [debugger]; rfl⟩, h.feed, h.written, h.encodes, .inl rfl⟩
  · unfold Session.flushTrace
    rw [s_none, t_none]
    exact h

theorem deliver (h : s.Alike p q t) (feed : Feed) (d : Debugger) (line : GuestLine)
    (n : Nat) (j : Journal) (b : Bool) :
    (s.deliver (feed, d, line)).1.Alike p q (t.deliver (feed, (d.retold n j).marked b, line)).1 ∧
      (t.deliver (feed, (d.retold n j).marked b, line)).2 = (s.deliver (feed, d, line)).2 := by
  cases line with
  | preempted | failed cause | interrupted =>
      exact ⟨⟨⟨n, j, b, rfl⟩, rfl, h.written, h.encodes, h.trace⟩, rfl⟩
  | line text =>
      refine ⟨⟨?_, rfl, h.written, h.encodes, h.trace⟩, rfl⟩
      unfold Session.deliver
      dsimp only
      cases text.toList.all (·.toNat ≤ 0xFFFF) with
      | true => exact ⟨n, j, b, rfl⟩
      | false => exact ⟨n, _, b, rfl⟩

theorem nextChar (h : s.Alike p q t) :
    s.nextChar.1.Alike p q t.nextChar.1 ∧ t.nextChar.2 = s.nextChar.2 := by
  cases pending : s.debugger.pending with
  | cons c rest =>
      rw [nextChar_of_pending pending, nextChar_of_pending (h.pending.trans pending)]
      exact ⟨h.map (fun d => { d with pending := rest }) fun n j b => ⟨n, j, b, rfl⟩, rfl⟩
  | nil =>
      have flushed := h.flushTrace
      obtain ⟨n, j, b, debugger⟩ := flushed.debugger
      obtain ⟨j', b', found⟩ := awaitLine_retold s.feed s.flushTrace.debugger n j b
      rw [nextChar_of_waiting pending, nextChar_of_waiting (h.pending.trans pending), h.feed,
        debugger, found]
      exact flushed.deliver _ _ _ n j' b'

theorem fail (h : s.Alike p q t) (cause : Fault.Cause) :
    (s.fail cause).1.Alike p q (t.fail cause).1 ∧ (t.fail cause).2 = (s.fail cause).2 := by
  obtain ⟨n, machine⟩ := h.machine
  have pc : t.machine.pc = s.machine.pc := by rw [machine]
  let fault : Fault := { cause, pc := some s.machine.pc }
  have stopped := h.map (fun d => { d with machine := d.machine.stopped fault })
    fun n j b => ⟨n, j, b, rfl⟩
  have logged := stopped.map (·.log .error .machine fault.title) fun n j b => ⟨n, _, b, rfl⟩
  unfold Session.fail
  rw [pc]
  exact ⟨logged, rfl⟩

theorem apply (h : s.Alike p q t) (next : Int) (effect : Effect) :
    (s.mapMachine (·.apply next effect)).Alike p q (t.mapMachine (·.apply next effect)) := by
  refine h.map (fun d => { d with machine := d.machine.apply next effect })
    fun n j b => ⟨n, j, b, ?_⟩
  cases effect <;> rfl

theorem ticked (h : s.Alike p q t) : s.ticked.Alike p q t.ticked :=
  h.map (fun d => { d with machine := { d.machine with cycles := d.machine.cycles + 1 } })
    fun n j b => ⟨n + 1, j, b, rfl⟩

/-- A trace that goes to no file may be kept on one side only. -/
private theorem traced_left (h : s.Alike p q t) (i : Instruction)
    (unfiled : s.trace.place = none ∧ t.trace.place = none) : (s.traced i).Alike p q t := by
  unfold Session.traced
  cases s.trace.mode with
  | off => exact h
  | log => exact ⟨h.debugger, h.feed, h.written, h.encodes, h.trace⟩
  | file => exact ⟨h.debugger, h.feed, h.written, h.encodes, .inr unfiled⟩

private theorem traced_right (h : s.Alike p q t) (i : Instruction)
    (unfiled : s.trace.place = none ∧ t.trace.place = none) : s.Alike p q (t.traced i) := by
  obtain ⟨n, j, b, debugger⟩ := h.debugger
  unfold Session.traced
  cases t.trace.mode with
  | off => exact h
  | log =>
      refine ⟨⟨n, ?_, b, ?_⟩, h.feed, h.written, h.encodes, h.trace⟩
      rotate_left
      · show t.debugger.log _ _ _ = _
        rw [debugger]
        rfl
  | file => exact ⟨h.debugger, h.feed, h.written, h.encodes, .inr unfiled⟩

theorem traced (h : s.Alike p q t) (i : Instruction) : (s.traced i).Alike p q (t.traced i) := by
  rcases h.trace with same | unfiled
  · obtain ⟨n, machine⟩ := h.machine
    let line := s!"[TRACE] pc={s.machine.pc} " ++ Disassembly.fetched i s.machine.memory
    have line_eq :
        s!"[TRACE] pc={t.machine.pc} " ++ Disassembly.fetched i t.machine.memory = line := by
      rw [machine]
    unfold Session.traced
    rw [same, line_eq]
    cases s.trace.mode with
    | off => exact h
    | log => exact h.map (·.log .debug .machine line) fun n j b => ⟨n, _, b, rfl⟩
    | file => exact ⟨h.debugger, h.feed, h.written, h.encodes, .inl rfl⟩
  · have left := h.traced_left i unfiled
    refine left.traced_right i ⟨?_, unfiled.2⟩
    unfold Session.traced
    cases s.trace.mode <;> exact unfiled.1

theorem halt (h : s.Alike p q t) :
    (s.mapDebugger Debugger.halt).Alike p q (t.mapDebugger Debugger.halt) := by
  apply h.map Debugger.halt
  intro n j b
  obtain ⟨j', halted⟩ := s.debugger.halt_retold n j
  refine ⟨n, j', b, ?_⟩
  rw [← halted]
  unfold Debugger.halt Debugger.logHalt
  cases running : s.debugger.machine.running with
  | true => simp [Debugger.marked, running, Debugger.log]
  | false => simp [Debugger.marked, running]

theorem perform (h : s.Alike p q t) (next : Int) (effect : Effect) :
    (s.perform next effect).1.Alike p q (t.perform next effect).1 ∧
      (t.perform next effect).2 = (s.perform next effect).2 := by
  cases effect with
  | emit unit =>
      have accepts : t.output.accepts unit = s.output.accepts unit := by
        simp only [Output.accepts, h.encodes]
      rw [perform_emit, perform_emit, accepts]
      split
      · have applied := h.apply next (.emit unit)
        obtain ⟨o, s_written, t_written⟩ := h.written
        refine ⟨⟨applied.debugger, applied.feed, ⟨o.push unit, ?_, ?_⟩, h.encodes, h.trace⟩, rfl⟩
        · show s.output.written.push unit = p ++ o.push unit
          rw [s_written, Array.push_append]
        · show t.output.written.push unit = q ++ o.push unit
          rw [t_written, Array.push_append]
      · exact ⟨h, rfl⟩
  | await cell =>
      obtain ⟨next_alike, same⟩ := h.nextChar
      rw [perform_await, perform_await]
      rcases s_next : s.nextChar with ⟨s', delivery⟩
      rcases t_next : t.nextChar with ⟨t', delivery'⟩
      rw [s_next, t_next] at next_alike same
      obtain rfl : delivery' = delivery := same
      cases delivery' with
      | char unit => exact ⟨apply next_alike next (.store cell unit), rfl⟩
      | preempted => exact ⟨next_alike, rfl⟩
      | failed cause => exact fail next_alike cause
      | interrupted => exact ⟨next_alike, rfl⟩
  | halt =>
      have moved := h.map (fun d => { d with machine := { d.machine with pc := next } })
        fun n j b => ⟨n, j, b, rfl⟩
      exact ⟨moved.halt, rfl⟩
  | leave =>
      have moved := h.map (fun d => { d with machine := { d.machine with pc := next } })
        fun n j b => ⟨n, j, b, rfl⟩
      have logged := moved.map (·.log .debug .machine "ret with empty stack")
        fun n j b => ⟨n, _, b, rfl⟩
      exact ⟨logged.halt, rfl⟩
  | _ => exact ⟨h.apply next _, rfl⟩

theorem step (h : s.Alike p q t) : s.step.1.Alike p q t.step.1 ∧ t.step.2 = s.step.2 := by
  obtain ⟨n, machine⟩ := h.machine
  have running : t.machine.running = s.machine.running := by rw [machine]
  have address : t.machine.codeAddress = s.machine.codeAddress := by rw [machine]; rfl
  have memory : t.ticked.machine.memory = s.ticked.machine.memory :=
    show t.machine.memory = s.machine.memory by rw [machine]
  unfold Session.step
  rw [running]
  cases s.machine.running with
  | false => exact ⟨h, rfl⟩
  | true =>
      rw [address]
      rcases s.machine.codeAddress with cause | pc
      · exact h.fail cause
      · simp only [Bool.not_true, Bool.false_eq_true, if_false, memory]
        rcases s.ticked.machine.memory.instructionAt pc with cause | i
        · exact h.ticked.fail cause
        · have traced := h.ticked.traced i
          obtain ⟨n', machine'⟩ := traced.machine
          have effect :
              i.effect (t.ticked.traced i).machine.memory (t.ticked.traced i).machine.stack =
                i.effect (s.ticked.traced i).machine.memory (s.ticked.traced i).machine.stack := by
            rw [machine']
          simp only [effect]
          rcases i.effect (s.ticked.traced i).machine.memory (s.ticked.traced i).machine.stack with
            cause | effect
          · exact traced.fail cause
          · exact traced.perform _ effect

/-- Alike sessions run alike, for any number of steps. -/
theorem run (h : s.Alike p q t) (n : Nat) :
    (s.run n).1.Alike p q (t.run n).1 ∧ (t.run n).2 = (s.run n).2 := by
  induction n generalizing s t with
  | zero => exact ⟨h, rfl⟩
  | succ n ih =>
      -- both machines run or neither does, and a failure ends both runs at the same step
      obtain ⟨cycles, machine⟩ := h.machine
      have same : t.machine.running = s.machine.running := by rw [machine]
      cases running : s.machine.running with
      | false =>
          rw [run_of_stopped running, run_of_stopped (same.trans running)]
          exact ⟨h, rfl⟩
      | true =>
          obtain ⟨next, ends⟩ := h.step
          rcases s_step : s.step with ⟨s', failure⟩
          rcases t_step : t.step with ⟨t', failure'⟩
          rw [s_step, t_step] at next ends
          obtain rfl : failure' = failure := ends
          cases failure' with
          | some failure =>
              rw [run_succ_of_failure running s_step,
                run_succ_of_failure (same.trans running) t_step]
              exact ⟨next, rfl⟩
          | none =>
              obtain ⟨later, count⟩ := ih next
              rw [run_succ running s_step, run_succ (same.trans running) t_step]
              exact ⟨later, by rw [count]⟩

end Alike

end WordMachine.Session
