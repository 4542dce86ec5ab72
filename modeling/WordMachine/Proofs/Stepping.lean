import WordMachine.Proofs.Waiting

/-!
# What a step does

A running machine either has no instruction that can be carried out, and stops by a fault, or it
has one whose effect is settled before anything is changed. Of the effects only waiting for input
can still end in a fault.
-/

namespace WordMachine

theorem except_bind_eq_ok {α β : Type} {x : Except Fault.Cause α} {f : α → Except Fault.Cause β}
    {b : β} : (x >>= f) = .ok b ↔ ∃ a, x = .ok a ∧ f a = .ok b := by
  cases x <;> simp [bind, Except.bind]

namespace Machine

theorem codeAddress_eq_ok_iff {m : Machine} {pc : Nat} :
    m.codeAddress = .ok pc ↔ m.pc = pc ∧ pc < numAddresses := by
  unfold codeAddress
  split
  · simp only [Except.ok.injEq]
    omega
  · simp only [reduceCtorEq, false_iff]
    omega

/-- The instruction at the program counter. -/
def fetched (m : Machine) : Except Fault.Cause Instruction := do
  m.memory.instructionAt (← m.codeAddress)

/-- The instruction at the program counter, with what it does. -/
def upcoming (m : Machine) : Except Fault.Cause (Instruction × Effect) := do
  let i ← m.fetched
  return (i, ← i.effect m.memory m.stack)

theorem upcoming_eq_ok_iff {m : Machine} {i : Instruction} {e : Effect} :
    m.upcoming = .ok (i, e) ↔ m.fetched = .ok i ∧ i.effect m.memory m.stack = .ok e := by
  simp only [upcoming, except_bind_eq_ok, pure, Except.pure, Except.ok.injEq, Prod.mk.injEq]
  constructor
  · rintro ⟨j, fetched, e', settled, rfl, rfl⟩
    exact ⟨fetched, settled⟩
  · rintro ⟨fetched, settled⟩
    exact ⟨i, fetched, e, settled, rfl, rfl⟩

/-- The instruction at the program counter reads a character of input to a cell. -/
def WaitsFor (m : Machine) (cell : Cell) : Prop :=
  ∃ i, m.fetched = .ok i ∧ i.opcode = .input ∧ i.a.toNat = cell

end Machine

namespace Instruction

theorem effect_eq_await_iff {i : Instruction} {m : Memory} {stack : List Int} {cell : Cell} :
    i.effect m stack = .ok (.await cell) ↔ i.opcode = .input ∧ i.a.toNat = cell := by
  unfold effect
  cases op : i.opcode with
  | input =>
      simp only [true_and]
      split
      · simp only [Except.ok.injEq, Effect.await.injEq, Fin.ext_iff]
      · have := cell.isLt
        simp only [reduceCtorEq, false_iff]
        omega
  | pop | ret => cases stack <;> simp [except_bind_eq_ok, pure, Except.pure]
  | jumpIf | jumpUnless | mod =>
      simp only [except_bind_eq_ok, pure, Except.pure, reduceCtorEq, false_and, iff_false,
        not_exists, not_and]
      intro x _
      split <;> simp [except_bind_eq_ok]
  | _ => simp [except_bind_eq_ok, pure, Except.pure]

theorem stack_of_effect_eq_ret {i : Instruction} {m : Memory} {stack : List Int} {target : Int}
    (h : i.effect m stack = .ok (.ret target)) : ∃ rest, stack = target :: rest := by
  unfold effect at h
  cases op : i.opcode with
  | input =>
      simp only [op] at h
      split at h <;> cases h
  | ret =>
      cases stack with
      | nil => simp [op] at h
      | cons top rest =>
          simp only [op, Except.ok.injEq, Effect.ret.injEq] at h
          exact ⟨rest, by rw [h]⟩
  | pop => cases stack <;> simp [op, except_bind_eq_ok, pure, Except.pure] at h
  | jumpIf | jumpUnless | mod =>
      simp only [op, except_bind_eq_ok, pure, Except.pure] at h
      obtain ⟨x, -, h⟩ := h
      split at h <;> simp [except_bind_eq_ok] at h
  | _ => simp [op, except_bind_eq_ok, pure, Except.pure] at h

end Instruction

namespace Machine

theorem waitsFor_iff {m : Machine} {cell : Cell} :
    m.WaitsFor cell ↔ ∃ i, m.upcoming = .ok (i, .await cell) := by
  simp only [WaitsFor, upcoming_eq_ok_iff, Instruction.effect_eq_await_iff]

/-- A machine that waits for input does so by two of its units. -/
theorem waitsFor_iff_units {m : Machine} {cell : Cell} :
    m.WaitsFor cell ↔ ∃ pc : Nat, m.pc = pc ∧ pc + 1 < numAddresses ∧
      Opcode.ofNat? (m.memory.unitAt pc).toNat = some .input ∧
      (m.memory.unitAt (pc + 1)).toNat = cell := by
  simp only [WaitsFor, fetched, except_bind_eq_ok, codeAddress_eq_ok_iff, Memory.instructionAt]
  constructor
  · rintro ⟨i, ⟨pc, ⟨at_pc, -⟩, found⟩, input, target⟩
    split at found
    · cases found
    · next op named =>
        split at found
        · cases found
        · next inside =>
            obtain rfl := Except.ok.inj found
            obtain rfl : op = .input := input
            exact ⟨pc, at_pc, Nat.not_le.mp inside, named, target⟩
  · rintro ⟨pc, at_pc, inside, named, target⟩
    let i : Instruction := { opcode := .input, a := m.memory.unitAt (pc + 1) }
    refine ⟨i, ⟨pc, ⟨at_pc, by omega⟩, ?_⟩, rfl, target⟩
    have fits : ¬numAddresses ≤ pc + Opcode.input.arity := Nat.not_le.mpr inside
    simp only [named]
    exact if_neg fits

/-- The instruction that waits stands as long as its two cells do. -/
theorem WaitsFor.of_kept {m m' : Machine} {cell : Cell} (waits : m.WaitsFor cell)
    (pc : m'.pc = m.pc)
    (kept : ∀ c : Cell, (c : Int) = m.pc ∨ (c : Int) = m.pc + 1 →
      m'.memory.get c = m.memory.get c) : m'.WaitsFor cell := by
  obtain ⟨n, at_n, inside, named, target⟩ := waitsFor_iff_units.mp waits
  have bound : numAddresses ≤ numCells := by decide
  have unit_kept (k : Nat) (near : k = n ∨ k = n + 1) :
      m'.memory.unitAt k = m.memory.unitAt k := by
    have cell_k : k < numCells := by omega
    unfold Memory.unitAt
    rw [dif_pos cell_k, dif_pos cell_k]
    exact kept ⟨k, cell_k⟩ (by simp only; omega)
  refine waitsFor_iff_units.mpr ⟨n, pc.trans at_n, inside, ?_, ?_⟩
  · rw [unit_kept n (.inl rfl)]
    exact named
  · rw [unit_kept (n + 1) (.inr rfl)]
    exact target

end Machine

namespace Session

/-- The session about to carry out an instruction: the cycle is counted and the trace line
written. -/
def poised (s : Session) (i : Instruction) : Session :=
  s.ticked.traced i

/-- What of a session does not depend on the count of cycles, the journal and the trace. -/
structure Near (s t : Session) : Prop where
  machine : t.machine = { s.machine with cycles := t.machine.cycles }
  pending : t.debugger.pending = s.debugger.pending
  setting : t.debugger.setting = s.debugger.setting
  files : t.debugger.host.files = s.debugger.host.files
  feed : t.feed = s.feed
  output : t.output = s.output

@[simp] theorem poised_machine (s : Session) (i : Instruction) :
    (s.poised i).machine = { s.machine with cycles := s.machine.cycles + 1 } := by
  unfold poised traced
  split
  · rfl
  · dsimp only
    split <;> rfl

theorem Near.refl (s : Session) : s.Near s := ⟨rfl, rfl, rfl, rfl, rfl, rfl⟩

theorem near_ticked (s : Session) : s.Near s.ticked := ⟨rfl, rfl, rfl, rfl, rfl, rfl⟩

theorem near_poised (s : Session) (i : Instruction) : s.Near (s.poised i) := by
  unfold poised traced
  split
  · exact ⟨rfl, rfl, rfl, rfl, rfl, rfl⟩
  · dsimp only
    split <;> exact ⟨rfl, rfl, rfl, rfl, rfl, rfl⟩

theorem effect_poised (s : Session) (i : Instruction) :
    i.effect (s.poised i).machine.memory (s.poised i).machine.stack =
      i.effect s.machine.memory s.machine.stack := by
  rw [(s.near_poised i).machine]

theorem step_of_upcoming {s : Session} {i : Instruction} {effect : Effect}
    (running : s.machine.running = true) (upcoming : s.machine.upcoming = .ok (i, effect)) :
    s.step = (s.poised i).perform (s.machine.pc + i.opcode.size) effect := by
  obtain ⟨fetched, settled⟩ := Machine.upcoming_eq_ok_iff.mp upcoming
  obtain ⟨pc, address, found⟩ := except_bind_eq_ok.mp fetched
  rw [← effect_poised] at settled
  unfold poised at settled ⊢
  simp only [step, running, address, Bool.not_true, Bool.false_eq_true, if_false]
  rw [show s.ticked.machine.memory.instructionAt pc = .ok i from found]
  simp only [settled, (Machine.codeAddress_eq_ok_iff.mp address).1, Int.natCast_add]

/-- Without an instruction that can be carried out nothing is changed but the count of cycles, and
even that only when the program counter is an address. -/
theorem step_of_refused_counted {s : Session} {cause : Fault.Cause}
    (running : s.machine.running = true) (refused : s.machine.upcoming = .error cause) :
    ∃ t, s.Near t ∧ s.step = t.fail cause ∧
      t.machine.cycles =
        s.machine.cycles + if 0 ≤ s.machine.pc ∧ s.machine.pc < numAddresses then 1 else 0 := by
  unfold Machine.upcoming Machine.fetched at refused
  simp only [step, running, Bool.not_true, Bool.false_eq_true, if_false]
  rcases address : s.machine.codeAddress with cause' | pc
  · obtain rfl : cause' = cause := by simpa [address, bind, Except.bind] using refused
    refine ⟨s, .refl s, rfl, ?_⟩
    unfold Machine.codeAddress at address
    split at address
    · cases address
    · next outside => rw [if_neg outside, Nat.add_zero]
  · have inside : 0 ≤ s.machine.pc ∧ s.machine.pc < numAddresses := by
      have at_pc := Machine.codeAddress_eq_ok_iff.mp address
      omega
    rw [if_pos inside]
    simp only
    rcases fetched : s.machine.memory.instructionAt pc with cause' | i
    · obtain rfl : cause' = cause := by
        simpa [address, fetched, bind, Except.bind] using refused
      rw [show s.ticked.machine.memory.instructionAt pc = .error cause' from fetched]
      exact ⟨_, s.near_ticked, rfl, rfl⟩
    · have settled : i.effect s.machine.memory s.machine.stack = .error cause := by
        rcases settled : i.effect s.machine.memory s.machine.stack with cause' | effect
        · simpa [address, fetched, settled, bind, Except.bind] using refused
        · simp [address, fetched, settled, bind, Except.bind, pure, Except.pure] at refused
      rw [← effect_poised] at settled
      refine ⟨_, s.near_poised i, ?_, by rw [poised_machine]⟩
      rw [show s.ticked.machine.memory.instructionAt pc = .ok i from fetched]
      unfold poised at settled ⊢
      simp only [settled]

/-- Without an instruction that can be carried out nothing is changed. -/
theorem step_of_refused {s : Session} {cause : Fault.Cause}
    (running : s.machine.running = true) (refused : s.machine.upcoming = .error cause) :
    ∃ t, s.Near t ∧ s.step = t.fail cause := by
  obtain ⟨t, near, step, -⟩ := step_of_refused_counted running refused
  exact ⟨t, near, step⟩

/-- The commands that are run by a step. -/
def stepCalls (s : Session) : List Call :=
  match s.machine.upcoming with
  | .ok (i, .await _) => (s.poised i).calls
  | _ => []

theorem stepCalls_of_await {s : Session} {i : Instruction} {cell : Cell}
    (upcoming : s.machine.upcoming = .ok (i, .await cell)) :
    s.stepCalls = (s.poised i).calls := by
  simp only [stepCalls, upcoming]

theorem stepCalls_of_not_waiting {s : Session} (busy : ∀ cell, ¬s.machine.WaitsFor cell) :
    s.stepCalls = [] := by
  unfold stepCalls
  split
  · next i cell upcoming => exact absurd (Machine.waitsFor_iff.mpr ⟨i, upcoming⟩) (busy cell)
  · rfl

theorem perform_emit (s : Session) (next : Int) (unit : Word) :
    s.perform next (.emit unit) =
      if s.output.accepts unit then
        ({ s with output := s.output.write unit }.mapMachine (·.apply next (.emit unit)), none)
      else (s, some (.unencodable unit)) := rfl

theorem perform_await (s : Session) (next : Int) (cell : Cell) :
    s.perform next (.await cell) =
      match s.nextChar with
      | (s, .char unit) => (s.mapMachine (·.apply next (.store cell unit)), none)
      | (s, .preempted) => (s, none)
      | (s, .failed cause) => s.fail cause
      | (s, .interrupted) => (s, some .interrupted) := rfl

private theorem completed_ne_raised {s t : Session} {failure : Failure} :
    (s, none) ≠ (t, some failure) := by
  intro h
  cases congrArg Prod.snd h

/-- An effect ends in a fault only when a character is waited for and refused. -/
theorem perform_eq_fault {s t : Session} {next : Int} {effect : Effect} {f : Fault}
    (raised : s.perform next effect = (t, some (.fault f))) :
    ∃ cell u cause, effect = .await cell ∧ s.nextChar = (u, .failed cause) ∧
      u.fail cause = (t, some (.fault f)) := by
  cases effect with
  | emit unit =>
      rw [perform_emit] at raised
      by_cases accepted : s.output.accepts unit
      · rw [if_pos accepted] at raised
        exact absurd raised completed_ne_raised
      · rw [if_neg accepted] at raised
        cases congrArg Prod.snd raised
  | await cell =>
      rcases asked : s.nextChar with ⟨u, delivery⟩
      rw [perform_await, asked] at raised
      cases delivery with
      | char unit => exact absurd raised completed_ne_raised
      | preempted => exact absurd raised completed_ne_raised
      | failed cause => exact ⟨cell, u, cause, rfl, rfl, raised⟩
      | interrupted => cases congrArg Prod.snd raised
  | _ => exact absurd raised completed_ne_raised

/-- Every command of a step finds no line begun, and the machine as it was but for one cycle and
what the commands before it stored. -/
theorem waited_stepCalls {s : Session} {earlier later : List Call} {c : Call}
    (place : s.stepCalls = earlier ++ c :: later) :
    s.debugger.pending = [] ∧ c.before.pending = [] ∧
      c.before.setting = s.debugger.setting ∧
      c.before.machine = { s.machine with
        memory := s.machine.memory.poked earlier, cycles := s.machine.cycles + 1 } := by
  unfold stepCalls at place
  split at place
  · next i cell upcoming =>
      obtain ⟨waiting, waited⟩ := waited_calls _ place
      have near := s.near_poised i
      have machine : c.before.machine =
          { (s.poised i).machine with memory := (s.poised i).machine.memory.poked earlier } :=
        waited.machine
      rw [poised_machine] at machine
      exact ⟨near.pending.symm.trans waiting, waited.pending.trans waiting,
        waited.setting.trans near.setting, machine⟩
  · simp at place

/-- A command that preempts ends the step, which leaves everything as the command left it. -/
theorem step_of_preempting {s : Session} {r : Call} (running : s.machine.running = true)
    (mem : r ∈ s.stepCalls) (preempts : r.after.preempted = true) :
    ∃ t, s.step = (t, none) ∧ t.debugger = { r.after with preempted := false } := by
  unfold stepCalls at mem
  split at mem
  · next i cell upcoming =>
      obtain ⟨t, given_up, left⟩ := nextChar_of_preempting mem preempts
      rw [step_of_upcoming running upcoming, perform_await, given_up]
      exact ⟨t, rfl, left⟩
  · cases mem

theorem fail_eq {s t : Session} {cause : Fault.Cause} {f : Fault}
    (raised : s.fail cause = (t, some (.fault f))) :
    f = ⟨cause, some s.machine.pc⟩ ∧ t.machine = s.machine.stopped f ∧
      t.debugger.pending = s.debugger.pending ∧ t.feed = s.feed ∧ t.output = s.output := by
  cases raised
  exact ⟨rfl, rfl, rfl, rfl, rfl⟩

end Session

end WordMachine
