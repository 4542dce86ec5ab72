import WordMachine.File.Error
import WordMachine.Text.Utf8

/-!
# Faults

The causes that stop a machine abnormally, with their kinds and texts. A fault names the program
counter once it is attached to the machine.
-/

namespace WordMachine

/-- Why a line could not be read. -/
inductive ReadError where
  | os (error : Refusal)
  | undecodable (failure : Text.Utf8.Failure)
  deriving DecidableEq, Repr

def ReadError.message : ReadError → String
  | .os error => error.message
  | .undecodable failure => failure.message

/-- Why a machine stops abnormally. -/
inductive Fault.Cause where
  | pcOutside (pc : Int)
  | operandsPastEnd (opcode : Word)
  | addressOutOfRange (address : Int)
  | invalidOperand (unit : Int)
  | invalidDestination (unit : Word)
  | emptyStack
  | moduloByZero
  | unknownOpcode (opcode : Word)
  | inputClosed
  | inputFailed (error : ReadError)
  deriving DecidableEq, Repr

inductive Fault.Kind where
  | malformed
  | stackUnderflow
  | arithmetic
  | unknownOpcode
  | inputClosed
  | inputFailed
  deriving DecidableEq, Repr

/-- A fault and, once it is known, the program counter it happened at. -/
structure Fault where
  cause : Fault.Cause
  pc : Option Int := none
  deriving DecidableEq, Repr

namespace Fault

def Cause.kind : Cause → Kind
  | .pcOutside _ | .operandsPastEnd _ | .addressOutOfRange _ | .invalidOperand _
  | .invalidDestination _ => .malformed
  | .emptyStack => .stackUnderflow
  | .moduloByZero => .arithmetic
  | .unknownOpcode _ => .unknownOpcode
  | .inputClosed => .inputClosed
  | .inputFailed _ => .inputFailed

def Kind.code : Kind → Nat
  | .malformed => 1
  | .stackUnderflow => 2
  | .arithmetic => 3
  | .unknownOpcode => 4
  | .inputClosed => 5
  | .inputFailed => 6

def Kind.name : Kind → String
  | .malformed => "MalformedProgramError"
  | .stackUnderflow => "StackUnderflowError"
  | .arithmetic => "ArithmeticFault"
  | .unknownOpcode => "UnknownOpcodeError"
  | .inputClosed => "InputClosedError"
  | .inputFailed => "InputError"

def Cause.message : Cause → String
  | .pcOutside pc => s!"pc {pc} is outside memory"
  | .operandsPastEnd opcode => s!"operands of opcode {opcode} run past the end of memory"
  | .addressOutOfRange address => s!"memory address {address} out of range"
  | .invalidOperand unit => s!"invalid operand {unit}"
  | .invalidDestination unit => s!"invalid destination {unit}"
  | .emptyStack => "pop from empty stack"
  | .moduloByZero => "modulo by zero"
  | .unknownOpcode opcode => s!"unknown opcode {opcode}"
  | .inputClosed => "input source closed"
  | .inputFailed error => "cannot read input: " ++ error.message

def kind (f : Fault) : Kind := f.cause.kind

def message (f : Fault) : String :=
  match f.pc with
  | none => f.cause.message
  | some pc => f.cause.message ++ s!" (pc={pc})"

def title (f : Fault) : String := f.kind.name ++ ": " ++ f.message

end Fault

end WordMachine
