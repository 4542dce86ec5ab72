import WordMachine.Session

/-!
# Execution in order

An instruction carried out as a sequence of actions on a session, each of which takes place before
the next one is begun. What was done before an action fails stays done. A step comes to the same:
see `Session.stepInOrder_eq_step`.
-/

namespace WordMachine

/-- What ends an instruction early: a fault, which stops the machine, or a failure that is handed
on. -/
inductive Stop where
  | fault (cause : Fault.Cause)
  | failure (failure : Failure)

/-- Something that is done to a session. -/
abbrev Action := EStateM Stop Session

namespace Action

/-- Asks the machine for something that there may not be. -/
def ask {α : Type} (f : Machine → Except Fault.Cause α) : Action α := fun s =>
  match f s.machine with
  | .ok a => .ok a s
  | .error cause => .error (.fault cause) s

def refuse (cause : Fault.Cause) : Action Unit := fun s => .error (.fault cause) s

def alter (f : Machine → Machine) : Action Unit := fun s => .ok () (s.mapMachine f)

/-- The unit at an address. -/
def read (address : Nat) : Action Word := ask fun m => m.memory.read address

def resolve (unit : Word) : Action Nat := do
  return (← ask fun m => m.memory.operand unit).toNat

/-- Stores a number modulo 65536. -/
def write (address : Nat) (value : Int) : Action Unit := do
  let cell ← ask fun _ => Memory.locate address
  alter fun m => { m with memory := m.memory.set cell (Word.ofInt value) }

def top? : Action (Option Int) := ask fun m => .ok m.stack.head?

def push (entry : Int) : Action Unit := alter fun m => { m with stack := entry :: m.stack }

def drop : Action Unit := alter fun m => { m with stack := m.stack.tail }

def goTo (pc : Int) : Action Unit := alter fun m => { m with pc }

def count : Action Unit := alter fun m => { m with cycles := m.cycles + 1 }

def halt : Action Unit := fun s => .ok () (s.mapDebugger Debugger.halt)

def log (message : String) : Action Unit := fun s =>
  .ok () (s.mapDebugger fun d => d.log .debug .machine message)

/-- Writes one character of guest output. -/
def emit (unit : Nat) : Action Unit := fun s =>
  let unit := UInt16.ofNat unit
  if s.output.accepts unit then .ok () { s with output := s.output.write unit }
  else .error (.failure (.unencodable unit)) s

/-- One character of input, unless a command gives up the instruction that asks for it. -/
def nextChar : Action (Option Word) := fun s =>
  match s.nextChar with
  | (s, .char unit) => .ok (some unit) s
  | (s, .preempted) => .ok none s
  | (s, .failed cause) => .error (.fault cause) s
  | (s, .interrupted) => .error (.failure .interrupted) s

/-- Stores a number that is made of the last two operands, and goes on. -/
def combining (i : Instruction) (next : Int) (f : Nat → Nat → Nat) : Action Unit := do
  let x ← resolve i.b
  let y ← resolve i.c
  write i.a.toNat (f x y)
  goTo next

/-- Carries out the instruction before `next`. -/
def carryOut (i : Instruction) (next : Int) : Action Unit :=
  match i.opcode with
  | .halt => do
      goTo next
      halt
  | .set => do
      let value ← resolve i.b
      write i.a.toNat value
      goTo next
  | .push => do
      let value ← resolve i.a
      push value
      goTo next
  | .pop => do
      match ← top? with
      | none => refuse .emptyStack
      | some top =>
          write i.a.toNat top
          drop
          goTo next
  | .eq => combining i next fun x y => if x = y then 1 else 0
  | .gt => combining i next fun x y => if x > y then 1 else 0
  | .jump => do
      let target ← resolve i.a
      goTo target
  | .jumpIf => do
      let condition ← resolve i.a
      if condition ≠ 0 then
        let target ← resolve i.b
        goTo target
      else goTo next
  | .jumpUnless => do
      let condition ← resolve i.a
      if condition = 0 then
        let target ← resolve i.b
        goTo target
      else goTo next
  | .add => combining i next fun x y => (x + y) % 32768
  | .mult => combining i next fun x y => (x * y) % 32768
  | .mod => do
      let divisor ← resolve i.c
      if divisor = 0 then refuse .moduloByZero
      else
        let value ← resolve i.b
        write i.a.toNat (value % divisor % 32768 : Nat)
        goTo next
  | .and => combining i next fun x y => (x &&& y) % 32768
  | .or => combining i next fun x y => (x ||| y) % 32768
  | .not => do
      let value ← resolve i.b
      write i.a.toNat ((-value - 1) % 32768)
      goTo next
  | .fetch => do
      let address ← resolve i.b
      let value ← read address
      write i.a.toNat value.toNat
      goTo next
  | .store => do
      let value ← resolve i.b
      let address ← resolve i.a
      write address value
      goTo next
  | .call => do
      let target ← resolve i.a
      push next
      goTo target
  | .ret => do
      match ← top? with
      | none =>
          goTo next
          log "ret with empty stack"
          halt
      | some top =>
          drop
          goTo top
  | .output => do
      let unit ← resolve i.a
      emit unit
      goTo next
  | .input =>
      if numCells ≤ i.a.toNat then refuse (.invalidDestination i.a)
      else do
        match ← nextChar with
        | none => return
        | some unit =>
            write i.a.toNat unit.toNat
            goTo next
  | .noop => goTo next

/-- The operand at an address, zero beyond the last one. -/
def operand (opcode : Opcode) (pc k : Nat) : Action Word :=
  if k ≤ opcode.arity then read (pc + k) else pure 0

/-- Fetches the instruction at the program counter and carries it out. -/
def execute : Action Unit := do
  let pc ← ask fun m => m.codeAddress
  let unit ← read pc
  count
  match Opcode.ofNat? unit.toNat with
  | none => refuse (.unknownOpcode unit)
  | some opcode =>
      if numAddresses ≤ pc + opcode.arity then refuse (.operandsPastEnd unit)
      else
        let a ← operand opcode pc 1
        let b ← operand opcode pc 2
        let c ← operand opcode pc 3
        let i : Instruction := { opcode, a, b, c }
        modify fun s => s.traced i
        carryOut i (pc + opcode.size : Nat)

/-- How an instruction ends. -/
def conclude : EStateM.Result Stop Session Unit → Session × Option Failure
  | .ok () s => (s, none)
  | .error (.fault cause) s => s.fail cause
  | .error (.failure e) s => (s, some e)

end Action

/-- A step whose instruction is carried out action by action. -/
def Session.stepInOrder (s : Session) : Session × Option Failure :=
  if !s.machine.running then (s, none) else Action.conclude (Action.execute.run s)

end WordMachine
