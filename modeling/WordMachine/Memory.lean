import WordMachine.Fault

/-!
# Memory

The cells of a machine: 32768 addresses and, right above them, the eight registers. Addresses and
values are given as integers of any size; a value is stored modulo 65536, and an address outside
the cells is a fault. Registers can be asked for by their numbers, too.
-/

namespace WordMachine

abbrev Cell := Fin numCells

/-- The cells of a machine, registers included. -/
@[ext] structure Memory where
  cells : Vector Word numCells
  deriving DecidableEq

/-- Why an image does not go into memory. -/
inductive LoadError where
  | doesNotFit (size : Nat) (base : Int)
  | wrongSize (size : Nat)
  deriving DecidableEq, Repr

def LoadError.message : LoadError → String
  | .doesNotFit size base => s!"image of {size} words does not fit at address {base}"
  | .wrongSize size => s!"memory image must hold {numCells} cells, got {size}"

/-- Whether a code unit names a register. -/
def namesRegister (unit : Int) : Bool := numAddresses ≤ unit && unit < numCells

namespace Memory

/-- The memory of a new machine, all zero. -/
def blank : Memory := ⟨Vector.replicate numCells 0⟩

instance : Inhabited Memory := ⟨blank⟩

def get (m : Memory) (c : Cell) : Word := m.cells[c]

def set (m : Memory) (c : Cell) (w : Word) : Memory := ⟨m.cells.set c w⟩

def toList (m : Memory) : List Word := m.cells.toList

def locate (address : Int) : Except Fault.Cause Cell :=
  if h : 0 ≤ address ∧ address < numCells then .ok ⟨address.toNat, by omega⟩
  else .error (.addressOutOfRange address)

def read (m : Memory) (address : Int) : Except Fault.Cause Word := (locate address).map m.get

def write (m : Memory) (address value : Int) : Except Fault.Cause Memory :=
  (locate address).map fun c => m.set c (Word.ofInt value)

/-- What an operand stands for: itself below the registers, else the content of the register that
it names. -/
def operand (m : Memory) (unit : Word) : Except Fault.Cause Word :=
  if unit.toNat < numAddresses then .ok unit
  else if h : unit.toNat < numCells then .ok (m.get ⟨unit.toNat, h⟩)
  else .error (.invalidOperand unit.toNat)

/-- What a code unit of any size stands for. -/
def resolve (m : Memory) (unit : Int) : Except Fault.Cause Int :=
  if unit < numAddresses then .ok unit
  else if h : unit < numCells ∧ 0 ≤ unit then .ok (m.get ⟨unit.toNat, by omega⟩).toNat
  else .error (.invalidOperand unit)

def registerCell (i : Fin numRegisters) : Cell :=
  ⟨numAddresses + i, Nat.add_lt_add_left i.isLt numAddresses⟩

/-- The cell of the register with a given number, if there is one. -/
def registerCell? (index : Int) : Option Cell :=
  if h : 0 ≤ index ∧ index < numRegisters then some (registerCell ⟨index.toNat, by omega⟩)
  else none

def registers (m : Memory) : List Word := List.ofFn fun i => m.get (registerCell i)

/-- The memory with the units stored from a cell on, as far as there are cells. -/
def fill (m : Memory) (base : Nat) : List Word → Memory
  | [] => m
  | w :: ws => if h : base < numCells then (m.set ⟨base, h⟩ w).fill (base + 1) ws else m

/-- The memory with an image copied to a base address; an image never reaches the registers. -/
def load (m : Memory) (image : List Int) (base : Int) : Except LoadError Memory :=
  if 0 ≤ base ∧ base + image.length ≤ numAddresses then
    .ok (m.fill base.toNat (image.map Word.ofInt))
  else .error (.doesNotFit image.length base)

def ofValues (values : List Int) : Except LoadError Memory :=
  if h : values.length = numCells then
    .ok ⟨⟨(values.map Word.ofInt).toArray, by simpa using h⟩⟩
  else .error (.wrongSize values.length)

/-- What a memory can be asked for. -/
inductive Request where
  | read (address : Int)
  | write (address value : Int)
  | readRegister (index : Int)
  | writeRegister (index value : Int)
  /-- Copies an image to a base address. -/
  | load (image : List Int) (base : Int)
  /-- Overwrites all cells. -/
  | replace (values : List Int)
  deriving DecidableEq, Repr

/-- Why a memory refuses a request. -/
inductive RequestError where
  | fault (cause : Fault.Cause)
  | noRegister
  | load (error : LoadError)
  deriving DecidableEq, Repr

def RequestError.message : RequestError → String
  | .fault cause => cause.message
  | .noRegister => "register index out of range"
  | .load e => e.message

/-- A number, where the request asks for one, or why there is none. -/
abbrev Reply := Except RequestError (Option Int)

/-- The memory after a request and the number it asks for: what was read or how much was copied. -/
def respond (m : Memory) : Request → Except RequestError (Memory × Option Int)
  | .read address => ((m.read address).mapError .fault).map fun w => (m, some (w.toNat : Int))
  | .write address value => ((m.write address value).mapError .fault).map fun m => (m, none)
  | .readRegister index =>
      match registerCell? index with
      | some c => .ok (m, some ((m.get c).toNat : Int))
      | none => .error .noRegister
  | .writeRegister index value =>
      match registerCell? index with
      | some c => .ok (m.set c (Word.ofInt value), none)
      | none => .error .noRegister
  | .load image base =>
      ((m.load image base).mapError .load).map fun m => (m, some (image.length : Int))
  | .replace values => ((ofValues values).mapError .load).map fun m => (m, none)

/-- The memory after a request, the same one if it was refused, and the reply. -/
def serve (m : Memory) (r : Request) : Memory × Reply :=
  match m.respond r with
  | .ok (m', number) => (m', .ok number)
  | .error e => (m, .error e)

@[simp] theorem get_set_self (m : Memory) (c : Cell) (w : Word) : (m.set c w).get c = w := by
  simp [get, set]

theorem get_set_of_ne (m : Memory) {c d : Cell} (w : Word) (h : c ≠ d) :
    (m.set c w).get d = m.get d := by
  have h' : (c : Nat) ≠ d := fun e => h (Fin.ext e)
  simp [get, set, Vector.getElem_set_ne, h']

@[simp] theorem get_blank (c : Cell) : blank.get c = 0 := by simp [get, blank]

@[simp] theorem length_toList (m : Memory) : m.toList.length = numCells := by simp [toList]

/-- Operands of sixteen bits stand for the same as units of any size. -/
theorem resolve_toNat (m : Memory) (unit : Word) :
    m.resolve unit.toNat = (m.operand unit).map fun w => (w.toNat : Int) := by
  unfold resolve operand
  by_cases low : unit.toNat < numAddresses
  · rw [if_pos low, if_pos (by omega)]
    rfl
  · rw [if_neg low, if_neg (by omega)]
    by_cases mapped : unit.toNat < numCells
    · rw [dif_pos mapped, dif_pos (by omega)]
      rfl
    · rw [dif_neg mapped, dif_neg (by omega)]
      rfl

theorem locate_eq_ok_iff {address : Int} {c : Cell} :
    locate address = .ok c ↔ address = (c : Nat) := by
  unfold locate
  split
  · next h =>
      simp only [Except.ok.injEq, Fin.ext_iff]
      omega
  · next h =>
      simp only [reduceCtorEq, false_iff]
      have := c.isLt
      omega

end Memory

end WordMachine
