import WordMachine.Proofs.Stepping

/-!
# Faults leave no trace

A step that ends in a fault changes nothing but the status of the machine, except that the
commands run while a character was waited for have stored what they store.
-/

namespace WordMachine.Session

private theorem fault_of_refused {s t u : Session} {cause : Fault.Cause} {f : Fault}
    (near : s.Near u) (raised : u.fail cause = (t, some (.fault f))) :
    f.pc = some s.machine.pc ∧
      t.machine = { s.machine with cycles := u.machine.cycles, running := false, fault := some f } ∧
      t.debugger.pending = s.debugger.pending ∧ t.feed = s.feed ∧ t.output = s.output := by
  obtain ⟨rfl, machine, pending, feed, output⟩ := fail_eq raised
  refine ⟨?_, ?_, pending.trans near.pending, feed.trans near.feed, output.trans near.output⟩
  · rw [near.machine]
  · rw [machine, Machine.stopped, near.machine]

/-- A character that is refused leaves the machine as the commands run before that left it. -/
private theorem fault_of_await {s t u v : Session} {cause : Fault.Cause} {f : Fault}
    (near : s.Near u) (refused : u.nextChar = (v, .failed cause))
    (raised : v.fail cause = (t, some (.fault f))) :
    f.pc = some s.machine.pc ∧
      t.machine = { s.machine with
        memory := s.machine.memory.poked u.calls, cycles := u.machine.cycles
        running := false, fault := some f } ∧
      t.debugger.pending = s.debugger.pending ∧ t.output = s.output := by
  obtain ⟨waited, -, written⟩ := waited_of_failed refused
  obtain ⟨rfl, machine, pending, -, output⟩ := fail_eq raised
  have left : v.machine = { s.machine with
      memory := s.machine.memory.poked u.calls, cycles := u.machine.cycles } := by
    have before := near.machine
    have after : v.machine = { u.machine with memory := u.machine.memory.poked u.calls } :=
      waited.machine
    rw [before] at after
    exact after
  refine ⟨?_, ?_, ?_, ?_⟩
  · rw [left]
  · rw [machine, Machine.stopped, left]
  · exact pending.trans (waited.pending.trans near.pending)
  · exact output.trans (written.trans near.output)

/-- Whatever the instruction, a step that ends in a fault leaves the program counter, the stack,
the output and the current line as they were, and stops the machine by a fault that names the
program counter. Memory and feed are as they were unless a character was waited for; then the
memory differs at most by what the commands run on the way stored. -/
theorem step_fault_atomic {s t : Session} {f : Fault} (running : s.machine.running = true)
    (raised : s.step = (t, some (.fault f))) :
    t.machine.pc = s.machine.pc ∧ t.machine.stack = s.machine.stack ∧ t.output = s.output ∧
      t.machine.running = false ∧ t.machine.fault = some f ∧ f.pc = some s.machine.pc ∧
      t.debugger.pending = s.debugger.pending ∧
      ((∀ cell, ¬s.machine.WaitsFor cell) →
        t.machine.memory = s.machine.memory ∧ t.feed = s.feed) ∧
      t.machine.memory = s.machine.memory.poked s.stepCalls ∧
      ∀ cell, (∀ c ∈ s.stepCalls, ∀ value, c.poke? ≠ some (cell, value)) →
        t.machine.memory.get cell = s.machine.memory.get cell := by
  -- everything follows from where the fault stands and what the machine is afterwards
  suffices core : f.pc = some s.machine.pc ∧
      (∃ cycles, t.machine = { s.machine with
        memory := s.machine.memory.poked s.stepCalls, cycles, running := false, fault := some f }) ∧
      t.debugger.pending = s.debugger.pending ∧ t.output = s.output ∧
      ((∀ cell, ¬s.machine.WaitsFor cell) → t.feed = s.feed) by
    obtain ⟨place, ⟨cycles, machine⟩, pending, output, feed⟩ := core
    have memory : t.machine.memory = s.machine.memory.poked s.stepCalls := by rw [machine]
    refine ⟨by rw [machine], by rw [machine], output, by rw [machine], by rw [machine], place,
      pending, ?_, memory, ?_⟩
    · intro busy
      have kept : t.machine.memory = s.machine.memory := by
        rw [memory, stepCalls_of_not_waiting busy, Memory.poked_nil]
      exact ⟨kept, feed busy⟩
    · intro cell untouched
      rw [memory, Memory.get_poked_of_untouched _ untouched]
  rcases upcoming : s.machine.upcoming with cause | ⟨i, effect⟩
  · obtain ⟨u, near, step⟩ := step_of_refused running upcoming
    obtain ⟨place, machine, pending, feed, output⟩ := fault_of_refused near (step ▸ raised)
    have no_calls : s.stepCalls = [] := by simp only [stepCalls, upcoming]
    exact ⟨place, ⟨u.machine.cycles, by rw [machine, no_calls, Memory.poked_nil]⟩, pending, output,
      fun _ => feed⟩
  · rw [step_of_upcoming running upcoming] at raised
    obtain ⟨cell, v, cause, rfl, refused, raised⟩ := perform_eq_fault raised
    obtain ⟨place, machine, pending, output⟩ :=
      fault_of_await (s.near_poised i) refused raised
    rw [← stepCalls_of_await upcoming] at machine
    exact ⟨place, ⟨_, machine⟩, pending, output,
      fun busy => absurd (Machine.waitsFor_iff.mpr ⟨i, upcoming⟩) (busy cell)⟩

/-- A session that waits for input at once, of which there is nothing but two commands. The second
one finds no file. -/
def starving : Session where
  debugger := { machine := { memory := Memory.blank.set 0 20, stack := [3] } }
  feed := .stream (.ofText "!set 5 7\n!load".toList .closes)

theorem starving_step_fault_atomic :
    ∃ t f, starving.step = (t, some (.fault f)) ∧ t.machine.stack = [3] ∧ f.pc = some 0 ∧
      t.machine.memory.get 5 = 7 ∧ t.machine.memory.get 6 = 0 := by
  have raised : starving.step = (starving.step.1, some (.fault ⟨.inputClosed, some 0⟩)) :=
    Prod.ext rfl (by decide +kernel)
  obtain ⟨-, stack, -, -, -, place, -, -, memory, others⟩ := step_fault_atomic (by rfl) raised
  have stored : ∀ c ∈ starving.stepCalls, c.poke?.map Prod.fst ≠ some 6 := by decide +kernel
  refine ⟨_, _, raised, stack, place, ?_, (others 6 ?_).trans (by decide +kernel)⟩
  · rw [memory]
    decide +kernel
  · intro c mem value poke
    exact stored c mem (by rw [poke]; rfl)

end WordMachine.Session
