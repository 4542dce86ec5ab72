import WordMachine.Proofs.RunComposition

/-!
# Stack frames

Data and return addresses share one stack. What lies below the lowest depth that a run comes to is
kept by the run, whatever is carried out above it, as long as nothing is restored. So a routine
that was called returns to its caller, with the stack that the caller had, when it returns from the
depth that it was called at.
-/

namespace WordMachine

/-- A stack before and after an instruction: one entry at most came or went. -/
inductive Shifted (stack : List Int) : List Int → Prop where
  | kept : Shifted stack stack
  | pushed (v : Int) : Shifted stack (v :: stack)
  | popped : Shifted stack stack.tail

/-- The lowest entries of a stack, bottom first. -/
def lowest (k : Nat) (stack : List Int) : List Int := stack.reverse.take k

theorem lowest_cons {k : Nat} {stack : List Int} (deep : k ≤ stack.length) (v : Int) :
    lowest k (v :: stack) = lowest k stack := by
  unfold lowest
  rw [List.reverse_cons]
  apply List.take_append_of_le_length
  rw [List.length_reverse]
  exact deep

/-- Stacks that consist of the same lowest entries are the same. -/
theorem eq_of_lowest_eq {k : Nat} {stack stack' : List Int}
    (same : lowest k stack' = lowest k stack) (length : stack.length = k)
    (length' : stack'.length = k) : stack' = stack := by
  have whole {l : List Int} (length : l.length = k) : lowest k l = l.reverse := by
    apply List.take_of_length_le
    rw [List.length_reverse, length]
  rw [whole length, whole length'] at same
  exact List.reverse_inj.mp same

/-- An entry that comes or goes above them leaves the lowest entries alone. -/
theorem Shifted.lowest_eq {k : Nat} {stack stack' : List Int} (h : Shifted stack stack')
    (deep : k ≤ stack.length) (deep' : k ≤ stack'.length) : lowest k stack' = lowest k stack := by
  cases h with
  | kept => rfl
  | pushed v => exact lowest_cons deep v
  | popped =>
      cases stack with
      | nil => rfl
      | cons v rest => exact (lowest_cons deep' v).symm

theorem Machine.shifted_apply (m : Machine) (next : Int) (effect : Effect) :
    Shifted m.stack (m.apply next effect).stack := by
  cases effect with
  | push value => exact .pushed _
  | call target => exact .pushed _
  | pop cell value => exact .popped
  | ret target => exact .popped
  | _ => exact .kept

namespace Session

variable {s t u v : Session} {k n : Nat}

/-- The step goes on from a snapshot. -/
def Reloading (s : Session) : Prop := s.machine.running = true ∧ ∃ c ∈ s.stepCalls, c.Reloads

instance (s : Session) : Decidable s.Reloading :=
  inferInstanceAs (Decidable (s.machine.running = true ∧ ∃ c ∈ s.stepCalls, c.Reloads))

theorem stack_perform_of_busy (s : Session) (next : Int) {effect : Effect}
    (busy : ∀ cell, effect ≠ .await cell) :
    (s.perform next effect).1.machine.stack = (s.machine.apply next effect).stack := by
  cases effect with
  | await cell => exact absurd rfl (busy cell)
  | emit unit =>
      rw [perform_emit]
      split <;> rfl
  | halt | leave =>
      have kept (d : Debugger) : d.halt.machine.stack = d.machine.stack := by
        rw [Debugger.halt_machine]
      exact kept _
  | _ => rfl

theorem stack_perform_await (next : Int) (cell : Cell) :
    (s.perform next (.await cell)).1.machine.stack = s.nextChar.1.machine.stack := by
  rw [perform_await]
  rcases s.nextChar with ⟨t, delivery⟩
  cases delivery <;> rfl

/-- A step moves one entry at most, unless it goes on from a snapshot. -/
theorem shifted_step (quiet : ¬s.Reloading) : Shifted s.machine.stack s.step.1.machine.stack := by
  refine s.step_elim ?_ ?_ ?_
  · intro stopped
    exact .kept
  · intro t cause running refused near
    have kept : (t.fail cause).1.machine.stack = s.machine.stack := by
      show t.machine.stack = s.machine.stack
      rw [near.machine]
    rw [kept]
    exact .kept
  · intro i effect running upcoming
    have start : (s.poised i).machine.stack = s.machine.stack := by rw [poised_machine]
    rw [← start]
    by_cases waits : ∃ cell, effect = .await cell
    · obtain ⟨cell, rfl⟩ := waits
      have stays (c : Call) (mem : c ∈ (s.poised i).calls) : ¬c.Reloads := by
        rw [← stepCalls_of_await upcoming] at mem
        exact fun reloads => quiet ⟨running, c, mem, reloads⟩
      rw [stack_perform_await, (nextChar_stays stays).stack]
      exact .kept
    · rw [stack_perform_of_busy _ _ fun cell awaits => waits ⟨cell, awaits⟩]
      exact (s.poised i).machine.shifted_apply _ effect

/-- What may happen to a session without a restore: a step that goes on from no snapshot, or a
change from outside that leaves the stack alone. -/
inductive Moves (s : Session) : Session → Prop where
  | step (quiet : ¬s.Reloading) : Moves s s.step.1
  | outside {t : Session} (stack : t.machine.stack = s.machine.stack) : Moves s t

/-- A run on which the stack never holds less than `k` entries. -/
inductive Above (k : Nat) (s : Session) : Session → Prop where
  | refl (deep : k ≤ s.machine.stack.length) : Above k s s
  | tail {t u : Session} (h : Above k s t) (moves : t.Moves u)
      (deep : k ≤ u.machine.stack.length) : Above k s u

namespace Above

theorem deep (h : Above k s t) : k ≤ t.machine.stack.length := by
  cases h with
  | refl deep => exact deep
  | tail _ _ deep => exact deep

/-- The lowest entries are kept as long as none of them is taken off. -/
theorem lowest_eq (h : Above k s t) : lowest k t.machine.stack = lowest k s.machine.stack := by
  induction h with
  | refl => rfl
  | @tail t u h moves deep ih =>
      rw [← ih]
      cases moves with
      | step quiet => exact (shifted_step quiet).lowest_eq h.deep deep
      | outside stack => rw [stack]

end Above

/-- One more step of a run that is not over. -/
theorem moves_run (s : Session) (n : Nat)
    (quiet : (s.run n).2.2 = none → ¬(s.run n).1.Reloading) :
    (s.run n).1.Moves (s.run (n + 1)).1 := by
  have so_far := s.runs n
  cases raised : (s.run n).2.2 with
  | some failure =>
      rw [raised] at so_far
      rw [(so_far.left_add rfl 1).run_eq]
      exact .outside rfl
  | none =>
      rw [raised] at so_far
      rw [(so_far.add rfl ((s.run n).1.runs 1)).run_eq]
      cases running : (s.run n).1.machine.running with
      | false =>
          rw [run_of_stopped running]
          exact .outside rfl
      | true =>
          have last : ((s.run n).1.run 1).1 = (s.run n).1.step.1 := by
            rcases step : (s.run n).1.step with ⟨t, _ | failure⟩
            · rw [run_succ running step]; rfl
            · rw [run_succ_of_failure running step]
          rw [last]
          exact .step (quiet raised)

theorem above_run (deep : ∀ j ≤ n, k ≤ (s.run j).1.machine.stack.length)
    (quiet : ∀ j < n, (s.run j).2.2 = none → ¬(s.run j).1.Reloading) : Above k s (s.run n).1 := by
  induction n with
  | zero => exact .refl (deep 0 (Nat.le_refl 0))
  | succ n ih =>
      have so_far := ih (fun j le => deep j (Nat.le_succ_of_le le))
        (fun j lt => quiet j (Nat.lt_succ_of_lt lt))
      exact so_far.tail (s.moves_run n (quiet n (Nat.lt_succ_self n))) (deep _ (Nat.le_refl _))

/-- A call that is carried out leaves the address behind it on the stack. -/
theorem stack_of_call {i : Instruction} (running : s.machine.running = true)
    (fetched : s.machine.fetched = .ok i) (call : i.opcode = .call) (step : s.step = (t, none)) :
    t.machine.stack = (s.machine.pc + 2) :: s.machine.stack := by
  obtain ⟨j, effect, upcoming, performed⟩ := performed_of_completed running step
  obtain ⟨fetched', settled⟩ := Machine.upcoming_eq_ok_iff.mp upcoming
  obtain rfl : i = j := Except.ok.inj (fetched.symm.trans fetched')
  obtain ⟨target, rfl⟩ : ∃ target, effect = .call target := by
    simp only [Instruction.effect, call, except_bind_eq_ok, pure, Except.pure] at settled
    obtain ⟨target, -, settled⟩ := settled
    exact ⟨target, (Except.ok.inj settled).symm⟩
  have busy (cell : Cell) : Effect.call target ≠ .await cell := Effect.noConfusion
  have stack := stack_perform_of_busy (s.poised i) (s.machine.pc + i.opcode.size) busy
  rw [performed, poised_machine, call] at stack
  exact stack

/-- A return from a stack that is not empty goes to the address on top. -/
theorem step_of_ret {i : Instruction} {top : Int} {rest : List Int}
    (running : s.machine.running = true) (fetched : s.machine.fetched = .ok i)
    (ret : i.opcode = .ret) (stack : s.machine.stack = top :: rest) :
    ∃ t, s.step = (t, none) ∧ t.machine.pc = top ∧ t.machine.stack = rest := by
  have upcoming : s.machine.upcoming = .ok (i, .ret top) := by
    apply Machine.upcoming_eq_ok_iff.mpr
    refine ⟨fetched, ?_⟩
    simp only [Instruction.effect, ret, stack]
  refine ⟨_, step_of_upcoming running upcoming, rfl, ?_⟩
  show (s.poised i).machine.stack.tail = rest
  rw [poised_machine, stack]
  rfl

/-- As long as nothing is restored, the lowest entries of the stack are kept by all that happens
above them. So after a call the stack below the return address is that of the caller, however the
routine goes on, and a return at the depth of the call leads behind it with the caller's stack. -/
theorem stack_frames_kept :
    (∀ (k : Nat) (s t : Session), s.Above k t →
      lowest k t.machine.stack = lowest k s.machine.stack) ∧
    (∀ (k n : Nat) (s : Session), (∀ j ≤ n, k ≤ (s.run j).1.machine.stack.length) →
      (∀ j < n, (s.run j).2.2 = none → ¬(s.run j).1.Reloading) →
      lowest k (s.run n).1.machine.stack = lowest k s.machine.stack) ∧
    ∀ (s t u : Session) (i j : Instruction), s.machine.running = true →
      s.machine.fetched = .ok i → i.opcode = .call → s.step = (t, none) →
      t.Above (s.machine.stack.length + 1) u → u.machine.running = true →
      u.machine.fetched = .ok j → j.opcode = .ret →
      u.machine.stack.length = s.machine.stack.length + 1 →
      ∃ v, u.step = (v, none) ∧ v.machine.pc = s.machine.pc + 2 ∧
        v.machine.stack = s.machine.stack := by
  refine ⟨fun k s t => Above.lowest_eq, ?_, ?_⟩
  · intro k n s deep quiet
    exact (above_run deep quiet).lowest_eq
  · intro s t u i j running fetched call step above running' fetched' ret depth
    have called := stack_of_call running fetched call step
    have frame : u.machine.stack = (s.machine.pc + 2) :: s.machine.stack := by
      rw [← called]
      exact eq_of_lowest_eq above.lowest_eq (by rw [called]; rfl) depth
    exact step_of_ret running' fetched' ret frame

/-- A session whose guest calls a routine that calls another one, which reads a character while a
command is run. -/
def nesting : Session where
  debugger := { machine := {
    memory := Memory.blank.fill 0 [17, 3, 0, 2, 7, 17, 10, 3, 32768, 18, 20, 32769, 18]
    stack := [5] } }
  feed := .ofLines ["!set 100 7", "x"]

theorem nesting_stack_frames_kept :
    ∃ v, (nesting.run 6).1.step = (v, none) ∧ v.machine.pc = 2 ∧ v.machine.stack = [5] := by
  obtain ⟨-, -, returns⟩ := stack_frames_kept
  have step : nesting.step = (nesting.step.1, none) := Prod.ext rfl (by decide +kernel)
  have whole : (nesting.run 6).1 = (nesting.step.1.run 5).1 := by rw [run_succ rfl step]
  have above : nesting.step.1.Above 2 (nesting.step.1.run 5).1 :=
    above_run (by decide +kernel) (by decide +kernel)
  rw [whole]
  exact returns nesting nesting.step.1 _ { opcode := .call, a := 3 } { opcode := .ret } rfl
    (by decide +kernel) rfl step above (by decide +kernel) (by decide +kernel) rfl
    (by decide +kernel)

end Session

end WordMachine
