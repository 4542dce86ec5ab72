/-!
# The instruction table

The instructions of the machine in the order of their codes, with mnemonics and operand counts.
-/

namespace WordMachine

inductive Opcode where
  | halt
  | set
  | push
  | pop
  | eq
  | gt
  | jump
  | jumpIf
  | jumpUnless
  | add
  | mult
  | mod
  | and
  | or
  | not
  | fetch
  | store
  | call
  | ret
  | output
  | input
  | noop
  deriving DecidableEq, Repr, Inhabited

namespace Opcode

def all : List Opcode :=
  [halt, set, push, pop, eq, gt, jump, jumpIf, jumpUnless, add, mult, mod, and, or, not, fetch,
    store, call, ret, output, input, noop]

def mnemonic : Opcode → String
  | halt => "halt"
  | set => "set"
  | push => "push"
  | pop => "pop"
  | eq => "eq"
  | gt => "gt"
  | jump => "jmp"
  | jumpIf => "jt"
  | jumpUnless => "jf"
  | add => "add"
  | mult => "mult"
  | mod => "mod"
  | and => "and"
  | or => "or"
  | not => "not"
  | fetch => "rmem"
  | store => "wmem"
  | call => "call"
  | ret => "ret"
  | output => "out"
  | input => "in"
  | noop => "noop"

/-- The code of an instruction: its place in the table. -/
def code (op : Opcode) : Nat := op.ctorIdx

def arity : Opcode → Nat
  | halt | ret | noop => 0
  | push | pop | jump | call | output | input => 1
  | set | jumpIf | jumpUnless | not | fetch | store => 2
  | eq | gt | add | mult | mod | and | or => 3

def size (op : Opcode) : Nat := 1 + op.arity

def ofNat? (n : Nat) : Option Opcode := all[n]?

/-- The instruction that a code unit of any size stands for. -/
def ofInt? (unit : Int) : Option Opcode := if unit < 0 then none else ofNat? unit.toNat

def ofMnemonic? (text : String) : Option Opcode := all.find? fun op => op.mnemonic == text

/-- Whether the first operand names a location rather than a value. -/
def hasDestination : Opcode → Bool
  | set | pop | eq | gt | add | mult | mod | and | or | not | fetch | input => true
  | _ => false

theorem ofNat?_code (op : Opcode) : ofNat? op.code = some op := by cases op <;> rfl

end Opcode

end WordMachine
