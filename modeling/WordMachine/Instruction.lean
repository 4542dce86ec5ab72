import WordMachine.Memory
import WordMachine.Opcode

/-!
# Instructions and their effects

An instruction is fetched whole before anything of it is carried out, and what it does is settled
from the memory and the stack before anything is changed. A fault therefore leaves no trace in
either. Carried out action by action, in an order of its own, an instruction does the same.
-/

namespace WordMachine

/-- An instruction with its operand units; those beyond its arity are zero. -/
structure Instruction where
  opcode : Opcode
  a : Word := 0
  b : Word := 0
  c : Word := 0
  deriving DecidableEq, Repr

/-- What an instruction does, with all its operands resolved. -/
inductive Effect where
  /-- Stops the machine. -/
  | halt
  /-- Stops the machine at a return without a caller. -/
  | leave
  | store (cell : Cell) (value : Word)
  | push (value : Word)
  /-- Moves the top of the stack to a cell. -/
  | pop (cell : Cell) (value : Word)
  | jump (target : Word)
  | call (target : Word)
  | ret (target : Int)
  /-- Writes one character of guest output. -/
  | emit (unit : Word)
  /-- Waits for a character of input, which goes to a cell. -/
  | await (cell : Cell)
  | skip
  deriving DecidableEq, Repr

namespace Memory

/-- The unit at an address, zero beyond the cells. -/
def unitAt (m : Memory) (n : Nat) : Word := if h : n < numCells then m.get ⟨n, h⟩ else 0

/-- The instruction at a program counter inside the address space. -/
def instructionAt (m : Memory) (pc : Nat) : Except Fault.Cause Instruction :=
  let unit := m.unitAt pc
  match Opcode.ofNat? unit.toNat with
  | none => .error (.unknownOpcode unit)
  | some op =>
      if numAddresses ≤ pc + op.arity then .error (.operandsPastEnd unit)
      else
        let operand i := if i ≤ op.arity then m.unitAt (pc + i) else 0
        .ok { opcode := op, a := operand 1, b := operand 2, c := operand 3 }

end Memory

namespace Instruction

def operands (i : Instruction) : List Word := [i.a, i.b, i.c].take i.opcode.arity

/-- What an instruction does in a given memory and stack, top first. Operands are resolved before
the destination is looked at, except that a `pop` first needs an entry and a division a divisor. -/
def effect (i : Instruction) (m : Memory) (stack : List Int) : Except Fault.Cause Effect :=
  let storing (value : Word) : Except Fault.Cause Effect := do
    return .store (← Memory.locate i.a.toNat) value
  let combining (f : Word → Word → Word) : Except Fault.Cause Effect := do
    storing (f (← m.operand i.b) (← m.operand i.c))
  match i.opcode with
  | .halt => .ok .halt
  | .set => do storing (← m.operand i.b)
  | .push => return .push (← m.operand i.a)
  | .pop =>
      match stack with
      | [] => .error .emptyStack
      | top :: _ => return .pop (← Memory.locate i.a.toNat) (Word.ofInt top)
  | .eq => combining fun x y => if x = y then 1 else 0
  | .gt => combining fun x y => if x > y then 1 else 0
  | .jump => return .jump (← m.operand i.a)
  | .jumpIf => do if (← m.operand i.a) ≠ 0 then return .jump (← m.operand i.b) else return .skip
  | .jumpUnless => do
      if (← m.operand i.a) = 0 then return .jump (← m.operand i.b) else return .skip
  | .add => combining fun x y => (x + y).low15
  | .mult => combining fun x y => (x * y).low15
  | .mod => do
      let divisor ← m.operand i.c
      if divisor = 0 then .error .moduloByZero
      else storing ((← m.operand i.b) % divisor).low15
  | .and => combining fun x y => (x &&& y).low15
  | .or => combining fun x y => (x ||| y).low15
  | .not => do storing (~~~(← m.operand i.b)).low15
  | .fetch => do storing (← m.read (← m.operand i.b).toNat)
  | .store => do
      let value ← m.operand i.b
      return .store (← Memory.locate (← m.operand i.a).toNat) value
  | .call => return .call (← m.operand i.a)
  | .ret =>
      match stack with
      | [] => .ok .leave
      | top :: _ => .ok (.ret top)
  | .output => return .emit (← m.operand i.a)
  | .input =>
      if h : i.a.toNat < numCells then .ok (.await ⟨i.a.toNat, h⟩)
      else .error (.invalidDestination i.a)
  | .noop => .ok .skip

end Instruction

end WordMachine
