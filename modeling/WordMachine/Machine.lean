import WordMachine.Instruction

/-!
# Machines

A machine is its memory, its program counter, its stack and a cycle counter, together with whether
it runs and the fault that stopped it. The counter and the stack hold integers: a debugger may set
them to anything.
-/

namespace WordMachine

structure Machine where
  memory : Memory := .blank
  pc : Int := 0
  /-- The stack, top first. -/
  stack : List Int := []
  cycles : Nat := 0
  running : Bool := true
  fault : Option Fault := none
  deriving Inhabited

inductive Status where
  | running
  | halted
  | faulted
  deriving DecidableEq, Repr

def Status.name : Status → String
  | .running => "running"
  | .halted => "halted"
  | .faulted => "faulted"

def Status.title : Status → String
  | .running => "Running"
  | .halted => "Halted"
  | .faulted => "Faulted"

namespace Machine

def status (m : Machine) : Status :=
  if m.running then .running else if m.fault.isSome then .faulted else .halted

def describe (m : Machine) : String :=
  s!"<VM pc={m.pc} cycles={m.cycles} status={m.status.name}>"

/-- The program counter as an address that code can stand at. -/
def codeAddress (m : Machine) : Except Fault.Cause Nat :=
  if 0 ≤ m.pc ∧ m.pc < numAddresses then .ok m.pc.toNat else .error (.pcOutside m.pc)

/-- The machine after an effect of the instruction before `next`. Waiting for input changes
nothing by itself. -/
def apply (m : Machine) (next : Int) : Effect → Machine
  | .halt | .leave => { m with pc := next, running := false }
  | .store cell value => { m with memory := m.memory.set cell value, pc := next }
  | .push value => { m with stack := value.toNat :: m.stack, pc := next }
  | .pop cell value =>
      { m with memory := m.memory.set cell value, stack := m.stack.tail, pc := next }
  | .jump target => { m with pc := target.toNat }
  | .call target => { m with stack := next :: m.stack, pc := target.toNat }
  | .ret target => { m with stack := m.stack.tail, pc := target }
  | .emit _ | .skip => { m with pc := next }
  | .await _ => m

def stopped (m : Machine) (f : Fault) : Machine := { m with running := false, fault := some f }

def loadImage (m : Machine) (image : List Int) : Except LoadError Machine :=
  (m.memory.load image 0).map fun memory => { m with memory }

@[simp] theorem apply_cycles (m : Machine) (next : Int) (e : Effect) :
    (m.apply next e).cycles = m.cycles := by cases e <;> rfl

@[simp] theorem apply_fault (m : Machine) (next : Int) (e : Effect) :
    (m.apply next e).fault = m.fault := by cases e <;> rfl

end Machine

end WordMachine
