import WordMachine.Instruction
import WordMachine.Text.Integer
import WordMachine.Text.Quoted

/-!
# Disassembly

An instruction as one line of text: its mnemonic and its operands, a register with its content
where it is read and the content is known, and for a plain output the character itself. A line is
refused if a number in it is too long to be written, which no word of a machine is.
-/

namespace WordMachine.Disassembly

/-- What an operand is shown as. -/
inductive Shown where
  | literal (value : Int)
  /-- A register, with its content if that is known. -/
  | register (index : Nat) (content : Option Int)
  | invalid (unit : Int)
  deriving DecidableEq, Repr

namespace Shown

def ofUnit (unit : Int) (registers : Option (List Int)) : Shown :=
  if unit < numAddresses then .literal unit
  else if unit < numCells then
    let index := (unit - numAddresses).toNat
    .register index (registers.bind (·[index]?))
  else .invalid unit

/-- A literal in decimal, a register by its name, anything else behind a question mark. -/
def text : Shown → String
  | .literal value => toString value
  | .register index (some content) => s!"r{index}={content}"
  | .register index none => s!"r{index}"
  | .invalid unit => s!"?{unit}"

/-- The number in the text, which may be of any size. -/
def number? : Shown → Option Int
  | .literal n | .invalid n => some n
  | .register _ content => content

def isWritable (s : Shown) : Bool := s.number?.all Text.isWritable

end Shown

def operand (unit : Int) (registers : Option (List Int)) : Except Text.WriteError String :=
  let shown := Shown.ofUnit unit registers
  if shown.isWritable then .ok shown.text else .error .tooManyDigits

/-- The operands of an instruction. The first one of those that write through it shows no
content. -/
def operands (op : Opcode) (units : List Int) (registers : Option (List Int)) : List Shown :=
  units.mapIdx fun index unit =>
    .ofUnit unit (if index = 0 && op.hasDestination then none else registers)

/-- What a plain output writes, if that can be shown. -/
def comment (op : Opcode) (units : List Int) : String :=
  match op, units with
  | .output, [unit] =>
      if 32 ≤ unit && unit < 127 then
        "  ; " ++ Text.quote (String.singleton (Char.ofNat unit.toNat))
      else ""
  | _, _ => ""

def instruction (op : Opcode) (units : List Int) (registers : Option (List Int)) : String :=
  match units with
  | [] => op.mnemonic
  | units =>
      op.mnemonic ++ " " ++ ", ".intercalate ((operands op units registers).map Shown.text)
        ++ comment op units

/-- The instruction at a place in a list of words; operands past the end count as zero. -/
def line (words : Array Int) (pc : Int) (registers : Option (List Int)) :
    Except Text.WriteError String :=
  if pc < 0 then .ok "<out of range>"
  else
    match words[pc.toNat]? with
    | none => .ok "<out of range>"
    | some unit =>
        match Opcode.ofInt? unit with
        | none => (Text.writeInt unit).map (".word " ++ ·)
        | some op =>
            let units := (List.range op.arity).map fun i => words.getD (pc.toNat + 1 + i) 0
            if (operands op units registers).all Shown.isWritable then
              .ok (instruction op units registers)
            else .error .tooManyDigits

/-- The line for a fetched instruction, with the contents of the registers. -/
def fetched (i : Instruction) (m : Memory) : String :=
  instruction i.opcode (i.operands.map fun w => (w.toNat : Int))
    (some (m.registers.map fun w => (w.toNat : Int)))

end WordMachine.Disassembly
