import WordMachine.Execution
import WordMachine.Proofs.InstructionTable

/-!
# The order of execution

A step settles what its instruction does and then does it. Carried out action by action, each of
them on what the one before it left, the instruction does the same. What an action did would stay
done if a later one failed, but none that can fail stands behind one that changes the machine; only
the commands that are run while a character is waited for come before the fault that ends the wait.
-/

namespace WordMachine

theorem Memory.locate_cell (cell : Cell) : locate (cell : Nat) = .ok cell :=
  locate_eq_ok_iff.mpr rfl

theorem Word.ofInt_complement (x : Word) :
    ofInt ((-(x.toNat : Int) - 1) % 32768) = (~~~x).low15 := by
  have kept := toNat_ofInt ((-(x.toNat : Int) - 1) % 32768)
  have complement := toNat_complement x
  apply UInt16.toNat_inj.mp
  omega

namespace Action

variable {α β : Type} {s : Session} {next : Int} {cause : Fault.Cause}

theorem run_bind (x : Action α) (g : α → Action β) (s : Session) :
    (x >>= g).run s =
      match x.run s with
      | .ok a t => (g a).run t
      | .error e t => .error e t := by
  simp only [bind, EStateM.bind, EStateM.run]
  cases x s <;> rfl

theorem run_ask_bind_of_ok {f : Machine → Except Fault.Cause α} {a : α}
    (found : f s.machine = .ok a) (g : α → Action β) : (ask f >>= g).run s = (g a).run s := by
  rw [run_bind, EStateM.run, ask, found]

theorem run_ask_bind_of_error {f : Machine → Except Fault.Cause α}
    (refused : f s.machine = .error cause) (g : α → Action β) :
    (ask f >>= g).run s = .error (.fault cause) s := by
  rw [run_bind, EStateM.run, ask, refused]

/-- What some actions come to is what a step does that has settled its effect before. A fault leaves
the session as it was. -/
inductive Carries (s : Session) (next : Int) :
    EStateM.Result Stop Session Unit → Except Fault.Cause Effect → Prop where
  | refused {cause : Fault.Cause} : Carries s next (.error (.fault cause) s) (.error cause)
  | settled {result : EStateM.Result Stop Session Unit} {effect : Effect}
      (performed : conclude result = s.perform next effect) : Carries s next result (.ok effect)

theorem Carries.performed {result : EStateM.Result Stop Session Unit} {effect : Effect}
    (carries : Carries s next result (.ok effect)) :
    conclude result = s.perform next effect := by
  cases carries with
  | settled performed => exact performed

theorem Carries.refusal {result : EStateM.Result Stop Session Unit}
    (carries : Carries s next result (.error cause)) : result = .error (.fault cause) s := by
  cases carries with
  | refused => rfl

theorem carries_ask {f : Machine → Except Fault.Cause α} {g : α → Action Unit}
    {k : α → Except Fault.Cause Effect} (each : ∀ a, Carries s next ((g a).run s) (k a)) :
    Carries s next ((ask f >>= g).run s) (f s.machine >>= k) := by
  cases asked : f s.machine with
  | error cause =>
      rw [run_ask_bind_of_error asked]
      exact .refused
  | ok a =>
      rw [run_ask_bind_of_ok asked]
      exact each a

theorem carries_resolve {unit : Word} {g : Nat → Action Unit} {k : Word → Except Fault.Cause Effect}
    (each : ∀ w, Carries s next ((g w.toNat).run s) (k w)) :
    Carries s next ((resolve unit >>= g).run s) (s.machine.memory.operand unit >>= k) := by
  rw [resolve, bind_assoc]
  refine carries_ask fun w => ?_
  rw [pure_bind]
  exact each w

theorem carries_write (s : Session) (next : Int) (address : Nat) {value : Int} {w : Word}
    (same : Word.ofInt value = w) :
    Carries s next
      (EStateM.run (do
        write address value
        goTo next) s)
      (do return .store (← Memory.locate address) w) := by
  rw [write, bind_assoc, same]
  exact carries_ask fun cell => .settled rfl

theorem carries_combining (i : Instruction) {f : Nat → Nat → Nat} {g : Word → Word → Word}
    (same : ∀ x y : Word, f x.toNat y.toNat = (g x y).toNat) :
    Carries s next ((combining i next f).run s) (do
      let x ← s.machine.memory.operand i.b
      let y ← s.machine.memory.operand i.c
      return .store (← Memory.locate i.a.toNat) (g x y)) := by
  refine carries_resolve fun x => carries_resolve fun y => carries_write s next i.a.toNat ?_
  rw [same, Word.ofInt_toNat]

theorem run_top?_bind (g : Option Int → Action β) (s : Session) :
    (top? >>= g).run s = (g s.machine.stack.head?).run s := by
  exact run_ask_bind_of_ok (f := fun m => .ok m.stack.head?) rfl g

theorem carries_emit (s : Session) (next : Int) (unit : Word) :
    Carries s next
      (EStateM.run (do
        emit unit.toNat
        goTo next) s)
      (.ok (.emit unit)) := by
  refine .settled ?_
  rw [run_bind, EStateM.run, emit, UInt16.ofNat_toNat, Session.perform_emit]
  by_cases accepted : s.output.accepts unit = true
  · rw [if_pos accepted, if_pos accepted]
    rfl
  · rw [if_neg accepted, if_neg accepted]
    rfl

theorem conclude_write (s : Session) (next : Int) (cell : Cell) (unit : Word) :
    conclude
        (EStateM.run (do
          write cell unit.toNat
          goTo next) s) =
      s.perform next (.store cell unit) := by
  have stored : (do return Effect.store (← Memory.locate (cell : Nat)) unit) =
      Except.ok (.store cell unit) := by
    rw [Memory.locate_cell]
    rfl
  have written := carries_write s next cell unit.ofInt_toNat
  rw [stored] at written
  exact written.performed

/-- The destination of a character is looked at before the character is asked for. -/
theorem carries_nextChar (s : Session) (next : Int) (cell : Cell) :
    Carries s next
      (EStateM.run (do
        match ← nextChar with
        | none => return
        | some unit =>
            write cell unit.toNat
            goTo next) s)
      (.ok (.await cell)) := by
  refine .settled ?_
  rw [run_bind, EStateM.run, nextChar, Session.perform_await]
  rcases s.nextChar with ⟨t, delivery⟩
  cases delivery with
  | char unit => exact conclude_write t next cell unit
  | preempted | failed cause | interrupted => rfl

/-- Whatever the instruction, its actions come to its effect. -/
theorem carries_carryOut (i : Instruction) (s : Session) (next : Int) :
    Carries s next ((carryOut i next).run s) (i.effect s.machine.memory s.machine.stack) := by
  unfold carryOut Instruction.effect
  cases i.opcode with
  | halt | noop => exact .settled rfl
  | set => exact carries_resolve fun w => carries_write s next _ w.ofInt_toNat
  | push | jump | call => exact carries_resolve fun w => .settled rfl
  | pop =>
      dsimp only
      rw [run_top?_bind]
      cases s.machine.stack with
      | nil => exact .refused
      | cons top rest =>
          dsimp only [List.head?_cons]
          rw [write, bind_assoc]
          exact carries_ask fun cell => .settled rfl
  | eq =>
      refine carries_combining i fun x y => ?_
      by_cases same : x = y
      · rw [if_pos same, if_pos (congrArg UInt16.toNat same)]
        rfl
      · rw [if_neg same, if_neg fun is => same (UInt16.toNat_inj.mp is)]
        rfl
  | gt =>
      refine carries_combining i fun x y => ?_
      by_cases greater : x > y
      · rw [if_pos greater, if_pos (UInt16.lt_iff_toNat_lt.mp greater)]
        rfl
      · rw [if_neg greater, if_neg fun more => greater (UInt16.lt_iff_toNat_lt.mpr more)]
        rfl
  | jumpIf =>
      refine carries_resolve fun condition => ?_
      by_cases zero : condition = 0
      · rw [if_neg (not_not_intro zero), if_neg (not_not_intro (condition.eq_zero_iff.mp zero))]
        exact .settled rfl
      · rw [if_pos zero, if_pos (mt condition.eq_zero_iff.mpr zero)]
        exact carries_resolve fun target => .settled rfl
  | jumpUnless =>
      refine carries_resolve fun condition => ?_
      by_cases zero : condition = 0
      · rw [if_pos zero, if_pos (condition.eq_zero_iff.mp zero)]
        exact carries_resolve fun target => .settled rfl
      · rw [if_neg zero, if_neg (mt condition.eq_zero_iff.mpr zero)]
        exact .settled rfl
  | add => exact carries_combining i fun x y => (Word.toNat_sum x y).symm
  | mult => exact carries_combining i fun x y => (Word.toNat_product x y).symm
  | mod =>
      refine carries_resolve fun divisor => ?_
      by_cases zero : divisor = 0
      · rw [if_pos zero, if_pos (divisor.eq_zero_iff.mp zero)]
        exact .refused
      · rw [if_neg zero, if_neg (mt divisor.eq_zero_iff.mpr zero)]
        refine carries_resolve fun w => carries_write s next _ ?_
        rw [← UInt16.toNat_mod, ← Word.toNat_low15, Word.ofInt_toNat]
  | and => exact carries_combining i fun x y => (Word.toNat_conjunction x y).symm
  | or => exact carries_combining i fun x y => (Word.toNat_disjunction x y).symm
  | not => exact carries_resolve fun w => carries_write s next _ w.ofInt_complement
  | fetch =>
      exact carries_resolve fun address => carries_ask fun w =>
        carries_write s next _ w.ofInt_toNat
  | store =>
      exact carries_resolve fun w => carries_resolve fun address =>
        carries_write s next _ w.ofInt_toNat
  | ret =>
      dsimp only
      rw [run_top?_bind]
      cases s.machine.stack with
      | nil => exact .settled rfl
      | cons top rest => exact .settled rfl
  | output => exact carries_resolve fun w => carries_emit s next w
  | input =>
      dsimp only
      by_cases inside : i.a.toNat < numCells
      · rw [if_neg (Nat.not_le.mpr inside), dif_pos inside]
        exact carries_nextChar s next ⟨i.a.toNat, inside⟩
      · rw [if_pos (Nat.not_lt.mp inside), dif_neg inside]
        exact .refused

/-- The actions of an instruction whose effect is refused change nothing. -/
theorem run_carryOut_of_refused {i : Instruction}
    (refused : i.effect s.machine.memory s.machine.stack = .error cause) :
    (carryOut i next).run s = .error (.fault cause) s := by
  have carries := carries_carryOut i s next
  rw [refused] at carries
  exact carries.refusal

theorem conclude_carryOut (i : Instruction) (next : Int) (s : Session) :
    conclude ((carryOut i next).run s) =
      match i.effect s.machine.memory s.machine.stack with
      | .error cause => s.fail cause
      | .ok effect => s.perform next effect := by
  cases settled : i.effect s.machine.memory s.machine.stack with
  | error cause =>
      rw [run_carryOut_of_refused settled]
      rfl
  | ok effect =>
      have carries := carries_carryOut i s next
      rw [settled] at carries
      exact carries.performed

theorem run_read_bind {n : Nat} (inside : n < numCells) (g : Word → Action β) (s : Session) :
    (read n >>= g).run s = (g (s.machine.memory.unitAt n)).run s := by
  have found : s.machine.memory.read n = .ok (s.machine.memory.unitAt n) :=
    Memory.read_eq_ok_iff.mpr ⟨inside, rfl⟩
  exact run_ask_bind_of_ok (f := fun m => m.memory.read n) found g

theorem run_operand_bind {opcode : Opcode} {pc : Nat} (inside : pc + opcode.arity < numAddresses)
    (k : Nat) (g : Word → Action β) (s : Session) :
    (operand opcode pc k >>= g).run s =
      (g (if k ≤ opcode.arity then s.machine.memory.unitAt (pc + k) else 0)).run s := by
  have cells : numAddresses ≤ numCells := by decide
  unfold operand
  by_cases among : k ≤ opcode.arity
  · rw [if_pos among, if_pos among, run_read_bind (by omega)]
  · rw [if_neg among, if_neg among, pure_bind]

theorem run_count_bind (g : Unit → Action β) (s : Session) :
    (count >>= g).run s = (g ()).run s.ticked := rfl

/-- The instruction at an address is read operand by operand. -/
theorem conclude_operands {opcode : Opcode} {pc : Nat} (inside : pc + opcode.arity < numAddresses)
    (next : Int) (s : Session) :
    let operand k := if k ≤ opcode.arity then s.machine.memory.unitAt (pc + k) else 0
    let i : Instruction := { opcode, a := operand 1, b := operand 2, c := operand 3 }
    conclude (EStateM.run (do
        let a ← Action.operand opcode pc 1
        let b ← Action.operand opcode pc 2
        let c ← Action.operand opcode pc 3
        let i : Instruction := { opcode, a, b, c }
        modify fun s => s.traced i
        carryOut i next) s) =
      conclude ((carryOut i next).run (s.traced i)) := by
  dsimp only
  rw [run_operand_bind inside, run_operand_bind inside, run_operand_bind inside]
  rfl

end Action

open WordMachine.Action

/-- A step that carries its instruction out action by action is the step that settles the effect
first. -/
theorem Session.stepInOrder_eq_step (s : Session) : s.stepInOrder = s.step := by
  have cells : numAddresses ≤ numCells := by decide
  unfold stepInOrder step
  split
  · rfl
  · unfold execute
    cases address : s.machine.codeAddress with
    | error cause =>
        rw [run_ask_bind_of_error address]
        rfl
    | ok pc =>
        have inside := (Machine.codeAddress_eq_ok_iff.mp address).2
        rw [run_ask_bind_of_ok address, run_read_bind (by omega), run_count_bind]
        have memory : s.ticked.machine.memory = s.machine.memory := rfl
        dsimp only
        rw [← memory, Memory.instructionAt]
        cases named : Opcode.ofNat? (s.ticked.machine.memory.unitAt pc).toNat with
        | none => rfl
        | some opcode =>
            dsimp only
            by_cases past : numAddresses ≤ pc + opcode.arity
            · rw [if_pos past, if_pos past]
              rfl
            · rw [if_neg past, if_neg past, conclude_operands (Nat.not_le.mp past)]
              exact conclude_carryOut _ _ _

end WordMachine
