import WordMachine.Proofs.Reachability

/-!
# The table of instructions

What an instruction does, column by column: the number that it stores and where, where the machine
goes on, what becomes of the stack, whether the machine stops, and what is written. Operands are
numbers of sixteen bits, of which arithmetic keeps fifteen. A step that carries out an
instruction which is in no need of input does what the table says, and nothing else.
-/

namespace WordMachine

namespace Memory

/-- What a unit stands for as an operand, if it stands for anything: itself, or the content of the
register that it names. -/
def denoted (m : Memory) (unit : Word) : Word :=
  if unit.toNat < 32768 then unit else m.unitAt unit.toNat

variable {m : Memory} {unit w : Word}

theorem operand_eq (m : Memory) (unit : Word) :
    m.operand unit =
      if unit.toNat < 32776 then .ok (m.denoted unit) else .error (.invalidOperand unit.toNat) := by
  unfold operand denoted unitAt
  by_cases literal : unit.toNat < 32768
  · rw [if_pos literal, if_pos (by omega), if_pos literal]
  · rw [if_neg literal, if_neg literal]
    by_cases named : unit.toNat < 32776
    · rw [dif_pos named, if_pos named, dif_pos named]
    · rw [dif_neg named, if_neg named]

theorem operand_eq_ok_iff : m.operand unit = .ok w ↔ unit.toNat < 32776 ∧ m.denoted unit = w := by
  rw [operand_eq]
  split <;> simp [*]

theorem read_eq_ok_iff {address : Nat} :
    m.read address = .ok w ↔ address < 32776 ∧ m.unitAt address = w := by
  unfold read locate unitAt
  by_cases inside : address < numCells
  · rw [dif_pos ⟨Int.natCast_nonneg _, by omega⟩, dif_pos inside]
    simp [Except.map, inside]
  · rw [dif_neg (by omega), dif_neg inside]
    simp [Except.map, inside]

/-- The memory with a number stored at an address, if there is one to store. -/
def storing (m : Memory) : Option (Nat × Nat) → Memory
  | none => m
  | some (address, value) =>
      if h : address < numCells then m.set ⟨address, h⟩ (UInt16.ofNat value) else m

@[simp] theorem storing_none (m : Memory) : m.storing none = m := rfl

theorem storing_cell (m : Memory) (c : Cell) (w : Word) :
    m.storing (some (c, w.toNat)) = m.set c w := by
  simp only [storing, c.isLt, dif_pos, UInt16.ofNat_toNat]

theorem get_storing_of_ne {stored : Option (Nat × Nat)} {c : Cell}
    (other : ∀ value, stored ≠ some ((c : Nat), value)) : (m.storing stored).get c = m.get c := by
  rcases stored with _ | ⟨address, value⟩
  · rfl
  · simp only [storing]
    split
    · next inside =>
        apply get_set_of_ne
        rintro rfl
        exact other value rfl
    · rfl

end Memory

namespace Machine

/-- The instruction whose units stand at the program counter. -/
def instruction (m : Machine) : Instruction :=
  let unit (k : Nat) := m.memory.unitAt (m.pc.toNat + k)
  let opcode := (Opcode.ofNat? (unit 0).toNat).getD .noop
  let operand k := if k ≤ opcode.arity then unit k else 0
  { opcode, a := operand 1, b := operand 2, c := operand 3 }

theorem fetched_eq_ok {m : Machine} {i : Instruction} (fetched : m.fetched = .ok i) :
    i = m.instruction := by
  obtain ⟨pc, address, found⟩ := except_bind_eq_ok.mp fetched
  have at_pc : m.pc.toNat = pc := by
    have := (codeAddress_eq_ok_iff.mp address).1
    omega
  unfold Memory.instructionAt at found
  simp only at found
  split at found
  · cases found
  · next op named =>
      split at found
      · cases found
      · simp only [instruction, at_pc, Nat.add_zero, named, Option.getD_some]
        exact (Except.ok.inj found).symm

theorem apply_counted (m : Machine) (next : Int) (e : Effect) (cycles : Nat) :
    { m with cycles }.apply next e = { m.apply next e with cycles } := by
  cases e <;> rfl

end Machine

namespace Opcode

/-- The instructions that compute a number of fifteen bits. -/
def isArithmetic : Opcode → Bool
  | eq | gt | add | mult | mod | and | or | not => true
  | _ => false

/-- The number computed from two, or from the first one alone. -/
def result : Opcode → Nat → Nat → Nat
  | eq, x, y => if x = y then 1 else 0
  | gt, x, y => if y < x then 1 else 0
  | add, x, y => (x + y) % 32768
  | mult, x, y => (x * y) % 32768
  | mod, x, y => (x % y) % 32768
  | and, x, y => (x &&& y) % 32768
  | or, x, y => (x ||| y) % 32768
  | not, x, _ => 32767 - x % 32768
  | _, x, _ => x

theorem result_lt {op : Opcode} (arithmetic : op.isArithmetic = true) (x y : Nat) :
    op.result x y < 32768 := by
  cases op <;> simp only [isArithmetic, Bool.false_eq_true] at arithmetic <;>
    simp only [result] <;> first | omega | (split <;> omega)

end Opcode

namespace Word

variable (x y : Word)

theorem eq_zero_iff : x = 0 ↔ x.toNat = 0 := UInt16.toNat_inj.symm

theorem toNat_low15 : x.low15.toNat = x.toNat % 32768 := by
  simp [low15, UInt16.toNat_mod]

theorem toNat_sum : (x + y).low15.toNat = (x.toNat + y.toNat) % 32768 := by
  rw [toNat_low15, UInt16.toNat_add]
  omega

theorem toNat_product : (x * y).low15.toNat = (x.toNat * y.toNat) % 32768 := by
  rw [toNat_low15, UInt16.toNat_mul]
  omega

theorem toNat_conjunction : (x &&& y).low15.toNat = (x.toNat &&& y.toNat) % 32768 := by
  rw [toNat_low15, UInt16.toNat_and]

theorem toNat_disjunction : (x ||| y).low15.toNat = (x.toNat ||| y.toNat) % 32768 := by
  rw [toNat_low15, UInt16.toNat_or]

theorem toNat_complement : (~~~x).low15.toNat = 32767 - x.toNat % 32768 := by
  have := x.toNat_lt
  rw [toNat_low15, UInt16.toNat_not]
  have : UInt16.size = 65536 := rfl
  omega

end Word

namespace Instruction

variable (i : Instruction) (m : Machine)

/-- The address and the number that are stored. -/
def stored? : Option (Nat × Nat) :=
  let x := (m.memory.denoted i.a).toNat
  let y := (m.memory.denoted i.b).toNat
  let z := (m.memory.denoted i.c).toNat
  match i.opcode with
  | .set | .eq | .gt | .add | .mult | .mod | .and | .or | .not =>
      some (i.a.toNat, i.opcode.result y z)
  | .fetch => some (i.a.toNat, (m.memory.unitAt y).toNat)
  | .pop => m.stack.head?.map fun top => (i.a.toNat, top.toNat)
  | .store => some (x, y)
  | _ => none

/-- Where the machine goes on. -/
def target : Int :=
  let x := (m.memory.denoted i.a).toNat
  let y := (m.memory.denoted i.b).toNat
  let next := m.pc + i.opcode.size
  match i.opcode with
  | .jump | .call => x
  | .jumpIf => if x ≠ 0 then y else next
  | .jumpUnless => if x = 0 then y else next
  | .ret => m.stack.head?.getD next
  | _ => next

/-- The stack, top first. -/
def stackAfter : List Int :=
  match i.opcode with
  | .push => (m.memory.denoted i.a).toNat :: m.stack
  | .call => (m.pc + 2) :: m.stack
  | .pop | .ret => m.stack.tail
  | _ => m.stack

def stops : Bool :=
  match i.opcode with
  | .halt => true
  | .ret => m.stack.isEmpty
  | _ => false

/-- The characters that are written. -/
def written : Array Word :=
  match i.opcode with
  | .output => #[m.memory.denoted i.a]
  | _ => #[]

end Instruction

/-- The characters that an effect writes. -/
def Effect.written : Effect → Array Word
  | .emit unit => #[unit]
  | _ => #[]

/-- What an effect other than waiting makes of a machine is what the table says. -/
structure Instruction.Tabulated (i : Instruction) (m : Machine) (e : Effect) : Prop where
  machine : m.apply (m.pc + i.opcode.size) e = { m with
    memory := m.memory.storing (i.stored? m), pc := i.target m, stack := i.stackAfter m
    running := m.running && !i.stops m }
  inside : ∀ address value, i.stored? m = some (address, value) →
    ∃ (cell : Cell) (w : Word), address = cell ∧ value = w.toNat
  written : e.written = i.written m

namespace Instruction

variable {i : Instruction} {m : Machine} {e : Effect}

attribute [local simp] stored? target stackAfter stops Instruction.written Effect.written

theorem stored?_of_isArithmetic (arithmetic : i.opcode.isArithmetic = true) :
    i.stored? m = some (i.a.toNat,
      i.opcode.result (m.memory.denoted i.b).toNat (m.memory.denoted i.c).toNat) := by
  cases op : i.opcode <;> simp_all [Opcode.isArithmetic]

private theorem tabulated_store {cell : Cell} {w : Word}
    (stored : i.stored? m = some ((cell : Nat), w.toNat))
    (straight : i.target m = m.pc + i.opcode.size) (stack : i.stackAfter m = m.stack)
    (goes_on : i.stops m = false) (quiet : i.written m = #[]) :
    i.Tabulated m (.store cell w) where
  machine := by
    rw [stored, Memory.storing_cell, straight, stack, goes_on]
    simp [Machine.apply]
  inside := by
    rintro _ _ same
    obtain ⟨rfl, rfl⟩ := Prod.mk.injEq .. ▸ Option.some.inj (stored.symm.trans same)
    exact ⟨cell, w, rfl, rfl⟩
  written := quiet.symm

private theorem tabulated_unstored (unstored : i.stored? m = none)
    (applied : m.apply (m.pc + i.opcode.size) e = { m with
      pc := i.target m, stack := i.stackAfter m, running := m.running && !i.stops m })
    (written : e.written = i.written m) : i.Tabulated m e where
  machine := by rw [unstored, Memory.storing_none, applied]
  inside := by
    intro address value same
    rw [unstored] at same
    cases same
  written := written

/-- The instructions that store what they make of their operands. -/
private theorem tabulated_result {cell : Cell} {w : Word}
    (stores : i.opcode = .set ∨ i.opcode.isArithmetic = true) (at_cell : i.a.toNat = cell)
    (result : w.toNat =
      i.opcode.result (m.memory.denoted i.b).toNat (m.memory.denoted i.c).toNat) :
    i.Tabulated m (.store cell w) := by
  apply tabulated_store <;> cases op : i.opcode <;>
    simp_all [Opcode.isArithmetic]

private theorem tabulated_pop {top : Int} {rest : List Int} {cell : Cell}
    (op : i.opcode = .pop) (at_cell : i.a.toNat = cell) (stack : m.stack = top :: rest)
    (fits : FitsWord top) : i.Tabulated m (.pop cell (Word.ofInt top)) := by
  have entry : top.toNat = (Word.ofInt top).toNat := by
    have masked := Word.toNat_ofInt top
    rw [fits.mod_eq] at masked
    omega
  have stored : i.stored? m = some ((cell : Nat), (Word.ofInt top).toNat) := by
    simp [op, stack, at_cell, entry]
  refine ⟨?_, ?_, by simp [op]⟩
  · rw [stored, Memory.storing_cell]
    simp [Machine.apply, op]
  · intro address value same
    obtain ⟨rfl, rfl⟩ := Prod.mk.injEq .. ▸ Option.some.inj (stored.symm.trans same)
    exact ⟨cell, Word.ofInt top, rfl, rfl⟩

/-- An instruction does what the table says, as soon as its operands and its destination are
found. -/
theorem tabulated_of_effect (settled : i.effect m.memory m.stack = .ok e)
    (busy : i.opcode ≠ .input) (fits : ∀ v ∈ m.stack, FitsWord v) : i.Tabulated m e := by
  unfold effect at settled
  cases op : i.opcode with
  | input => exact absurd op busy
  | set | not =>
      simp only [op, except_bind_eq_ok, pure, Except.pure, Memory.operand_eq_ok_iff,
        Memory.locate_eq_ok_iff, Except.ok.injEq, Int.natCast_inj] at settled
      obtain ⟨_, ⟨-, rfl⟩, cell, at_cell, rfl⟩ := settled
      refine tabulated_result (by simp [op, Opcode.isArithmetic]) at_cell ?_
      simp [op, Opcode.result, Word.toNat_complement]
  | eq | gt =>
      simp only [op, except_bind_eq_ok, pure, Except.pure, Memory.operand_eq_ok_iff,
        Memory.locate_eq_ok_iff, Except.ok.injEq, Int.natCast_inj] at settled
      obtain ⟨_, ⟨-, rfl⟩, _, ⟨-, rfl⟩, cell, at_cell, rfl⟩ := settled
      refine tabulated_result (by simp [op, Opcode.isArithmetic]) at_cell ?_
      simp only [op, Opcode.result, UInt16.toNat_inj, gt_iff_lt, UInt16.lt_iff_toNat_lt]
      split <;> rfl
  | add | mult | and | or =>
      simp only [op, except_bind_eq_ok, pure, Except.pure, Memory.operand_eq_ok_iff,
        Memory.locate_eq_ok_iff, Except.ok.injEq, Int.natCast_inj] at settled
      obtain ⟨_, ⟨-, rfl⟩, _, ⟨-, rfl⟩, cell, at_cell, rfl⟩ := settled
      refine tabulated_result (by simp [op, Opcode.isArithmetic]) at_cell ?_
      simp only [op, Opcode.result, Word.toNat_sum, Word.toNat_product, Word.toNat_conjunction,
        Word.toNat_disjunction]
  | mod =>
      simp only [op, except_bind_eq_ok, pure, Except.pure, Memory.operand_eq_ok_iff] at settled
      obtain ⟨_, ⟨-, rfl⟩, settled⟩ := settled
      split at settled
      · cases settled
      · simp only [except_bind_eq_ok, Memory.operand_eq_ok_iff, Memory.locate_eq_ok_iff,
          Except.ok.injEq, Int.natCast_inj] at settled
        obtain ⟨_, ⟨-, rfl⟩, cell, at_cell, rfl⟩ := settled
        refine tabulated_result (by simp [op, Opcode.isArithmetic]) at_cell ?_
        simp only [op, Opcode.result, Word.toNat_low15, UInt16.toNat_mod]
  | pop =>
      cases stack : m.stack with
      | nil => simp [op, stack] at settled
      | cons top rest =>
          simp only [op, stack, except_bind_eq_ok, pure, Except.pure, Memory.locate_eq_ok_iff,
            Except.ok.injEq, Int.natCast_inj] at settled
          obtain ⟨cell, at_cell, rfl⟩ := settled
          exact tabulated_pop op at_cell stack (fits top (by rw [stack]; exact List.mem_cons_self))
  | ret =>
      cases stack : m.stack with
      | nil =>
          simp only [op, stack, Except.ok.injEq] at settled
          obtain rfl := settled
          exact tabulated_unstored (by simp [op]) (by simp [Machine.apply, op, stack]) (by simp [op])
      | cons top rest =>
          simp only [op, stack, Except.ok.injEq] at settled
          obtain rfl := settled
          exact tabulated_unstored (by simp [op]) (by simp [Machine.apply, op, stack]) (by simp [op])
  | fetch =>
      simp only [op, except_bind_eq_ok, pure, Except.pure, Memory.operand_eq_ok_iff,
        Memory.read_eq_ok_iff, Memory.locate_eq_ok_iff, Except.ok.injEq, Int.natCast_inj] at settled
      obtain ⟨_, ⟨-, rfl⟩, _, ⟨-, rfl⟩, cell, at_cell, rfl⟩ := settled
      apply tabulated_store <;> simp [op, at_cell]
  | store =>
      simp only [op, except_bind_eq_ok, pure, Except.pure, Memory.operand_eq_ok_iff,
        Memory.locate_eq_ok_iff, Except.ok.injEq, Int.natCast_inj] at settled
      obtain ⟨_, ⟨-, rfl⟩, _, ⟨-, rfl⟩, cell, at_cell, rfl⟩ := settled
      apply tabulated_store <;> simp [op, at_cell]
  | push | jump | call | output =>
      simp only [op, except_bind_eq_ok, pure, Except.pure, Memory.operand_eq_ok_iff,
        Except.ok.injEq] at settled
      obtain ⟨_, ⟨-, rfl⟩, rfl⟩ := settled
      exact tabulated_unstored (by simp [op])
        (by simp [Machine.apply, op, Opcode.size, Opcode.arity]) (by simp [op])
  | halt | noop =>
      simp only [op, Except.ok.injEq] at settled
      obtain rfl := settled
      exact tabulated_unstored (by simp [op]) (by simp [Machine.apply, op]) (by simp [op])
  | jumpIf | jumpUnless =>
      simp only [op, except_bind_eq_ok, pure, Except.pure, Memory.operand_eq_ok_iff] at settled
      obtain ⟨_, ⟨-, rfl⟩, settled⟩ := settled
      split at settled
      · next condition =>
          simp only [except_bind_eq_ok, Memory.operand_eq_ok_iff, Except.ok.injEq] at settled
          obtain ⟨_, ⟨-, rfl⟩, rfl⟩ := settled
          simp only [Word.eq_zero_iff, ne_eq] at condition
          exact tabulated_unstored (by simp [op]) (by simp [Machine.apply, op, condition])
            (by simp [op])
      · next condition =>
          obtain rfl := Except.ok.inj settled
          simp only [Word.eq_zero_iff, ne_eq, Decidable.not_not] at condition
          exact tabulated_unstored (by simp [op]) (by simp [Machine.apply, op, condition])
            (by simp [op])

end Instruction

namespace Session

/-- All but the machine and the output is the same, journal and trace apart. -/
structure SameAside (s t : Session) : Prop where
  pending : t.debugger.pending = s.debugger.pending
  setting : t.debugger.setting = s.debugger.setting
  files : t.debugger.host.files = s.debugger.host.files
  feed : t.feed = s.feed

theorem Near.aside {s t : Session} (near : s.Near t) : s.SameAside t :=
  ⟨near.pending, near.setting, near.files, near.feed⟩

theorem SameAside.trans {s t u : Session} (first : s.SameAside t) (second : t.SameAside u) :
    s.SameAside u where
  pending := second.pending.trans first.pending
  setting := second.setting.trans first.setting
  files := second.files.trans first.files
  feed := second.feed.trans first.feed

/-- An effect that waits for nothing changes the machine and the output only. -/
theorem perform_of_busy {s t : Session} {next : Int} {e : Effect} (busy : ∀ cell, e ≠ .await cell)
    (completed : s.perform next e = (t, none)) :
    t.machine = s.machine.apply next e ∧ t.output.written = s.output.written ++ e.written ∧
      s.SameAside t := by
  cases e with
  | await cell => exact absurd rfl (busy cell)
  | emit unit =>
      rw [perform_emit] at completed
      split at completed
      · obtain rfl := congrArg Prod.fst completed
        exact ⟨rfl, by simp [Output.write, Effect.written, mapMachine], rfl, rfl, rfl, rfl⟩
      · cases congrArg Prod.snd completed
  | halt | leave =>
      obtain rfl := congrArg Prod.fst completed
      exact ⟨Debugger.halt_machine _, Array.append_empty.symm, Debugger.halt_pending _,
        Debugger.halt_setting _, Debugger.halt_files _, rfl⟩
  | _ =>
      obtain rfl := congrArg Prod.fst completed
      exact ⟨rfl, Array.append_empty.symm, rfl, rfl, rfl, rfl⟩

/-- What becomes of a session by one instruction of the table. -/
structure ByTable (s t : Session) : Prop where
  fetched : s.machine.fetched = .ok s.machine.instruction
  stored : ∀ address value, s.machine.instruction.stored? s.machine = some (address, value) →
    ∃ inside : address < 32776, (t.machine.memory.get ⟨address, inside⟩).toNat = value
  kept : ∀ cell : Cell,
    (∀ value, s.machine.instruction.stored? s.machine ≠ some ((cell : Nat), value)) →
    t.machine.memory.get cell = s.machine.memory.get cell
  short : s.machine.instruction.opcode.isArithmetic = true →
    ∃ value < 32768, s.machine.instruction.stored? s.machine =
      some (s.machine.instruction.a.toNat, value)
  pc : t.machine.pc = s.machine.instruction.target s.machine
  stack : t.machine.stack = s.machine.instruction.stackAfter s.machine
  running : t.machine.running = !s.machine.instruction.stops s.machine
  written : t.output.written = s.output.written ++ s.machine.instruction.written s.machine
  cycles : t.machine.cycles = s.machine.cycles + 1
  fault : t.machine.fault = none
  aside : s.SameAside t

/-- A step of a running machine that is completed, and does not read, goes by the table. -/
theorem byTable_step {s t : Session} (reached : s.Reachable) (running : s.machine.running = true)
    (busy : s.machine.instruction.opcode ≠ .input) (completed : s.step = (t, none)) :
    s.ByTable t := by
  rcases upcoming : s.machine.upcoming with cause | ⟨i, e⟩
  · obtain ⟨u, -, step⟩ := step_of_refused running upcoming
    rw [step] at completed
    cases congrArg Prod.snd completed
  · obtain ⟨fetched, settled⟩ := Machine.upcoming_eq_ok_iff.mp upcoming
    obtain rfl := Machine.fetched_eq_ok fetched
    have tabulated := Instruction.tabulated_of_effect settled busy reached.sound.stack
    rw [step_of_upcoming running upcoming] at completed
    have waits_not (cell : Cell) : e ≠ .await cell := by
      rintro rfl
      exact busy (Instruction.effect_eq_await_iff.mp settled).1
    obtain ⟨machine, written, aside⟩ := perform_of_busy waits_not completed
    rw [poised_machine, Machine.apply_counted, tabulated.machine, running, Bool.true_and] at machine
    have near := s.near_poised s.machine.instruction
    rw [near.output, tabulated.written] at written
    refine ⟨fetched, ?_, ?_, ?_, by rw [machine], by rw [machine], by rw [machine], written,
      by rw [machine], ?_, near.aside.trans aside⟩
    · intro address value stored
      obtain ⟨cell, w, rfl, rfl⟩ := tabulated.inside address value stored
      refine ⟨cell.isLt, ?_⟩
      rw [machine, stored, Memory.storing_cell, Memory.get_set_self]
    · intro cell other
      rw [machine]
      exact Memory.get_storing_of_ne other
    · intro arithmetic
      exact ⟨_, Opcode.result_lt arithmetic _ _, Instruction.stored?_of_isArithmetic arithmetic⟩
    · rw [machine]
      cases fault : s.machine.fault with
      | none => rfl
      | some f =>
          have stopped := reached.sound.stopped (by rw [show s.debugger.machine.fault = _ from fault]; rfl)
          rw [show s.debugger.machine.running = true from running] at stopped
          cases stopped

/-- A session whose guest stores a sum of more than fifteen bits in the place of one of its own
operands. -/
def summing : Session where
  debugger := { machine := { memory := Memory.blank.fill 0 [9, 2, 32767, 5] } }

theorem summing_byTable :
    ∃ t, summing.step = (t, none) ∧ (t.machine.memory.get ⟨2, by decide⟩).toNat = 4 ∧
      t.machine.memory.get ⟨3, by decide⟩ = 5 ∧ t.machine.pc = 4 := by
  have blank : Reachable {} := .fresh rfl rfl
  have loaded := blank.loaded [9, 2, 32767, 5] rfl
  have reached : Reachable summing := loaded.elsewhere rfl rfl
  have completed : summing.step = (summing.step.1, none) := Prod.ext rfl (by decide +kernel)
  have table := byTable_step reached rfl (by decide +kernel) completed
  have sum : summing.machine.instruction.stored? summing.machine = some (2, 4) := by
    decide +kernel
  obtain ⟨_, stored⟩ := table.stored 2 4 sum
  refine ⟨_, completed, stored, ?_, table.pc.trans (by decide +kernel)⟩
  rw [table.kept ⟨3, by decide⟩ (by rw [sum]; simp)]
  decide +kernel

end Session

end WordMachine
