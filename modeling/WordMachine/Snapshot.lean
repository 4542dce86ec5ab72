import WordMachine.Machine
import WordMachine.Journal

/-!
# Snapshots

The saved state of a machine, and its byte format: the program counter in two bytes, the depth of
the stack in four, the stack from the bottom up, and all cells, every number least significant
byte first. The bytes of the cells alone are a memory dump.
-/

namespace WordMachine

/-- A saved state: program counter, stack from the bottom up, and cells. -/
structure Snapshot where
  pc : Int
  stack : List Int
  memory : List Int
  deriving DecidableEq, Repr

/-- Why a snapshot or a dump cannot be read, written or restored. -/
inductive Snapshot.Error where
  | tooSmall
  | sizeMismatch (depth size : Nat)
  | imageSize (size : Nat)
  | cellMismatch (size : Nat)
  | unwritable (path : Path) (error : Refusal)
  | unreadable (path : Path) (error : Refusal)
  deriving DecidableEq, Repr

namespace Snapshot

def headerSize : Nat := 6

def sizeOf (depth : Nat) : Nat := headerSize + 2 * depth + 2 * numCells

end Snapshot

def Snapshot.Error.message : Snapshot.Error → String
  | .tooSmall => "snapshot too small"
  | .sizeMismatch depth size =>
      s!"snapshot size mismatch: expected {Snapshot.sizeOf depth} bytes for {depth} stack entries, "
        ++ s!"got {size}"
  | .imageSize size => s!"memory image must hold {numCells} cells, got {size}"
  | .cellMismatch size => s!"snapshot memory holds {size} cells, expected {numCells}"
  | .unwritable path error => s!"cannot write {path}: {error.message}"
  | .unreadable path error => s!"cannot read {path}: {error.message}"

namespace Snapshot

/-- The state with every number taken modulo 65536. -/
def capture (pc : Int) (stack memory : List Int) : Snapshot :=
  { pc := pc % 65536, stack := stack.map (· % 65536), memory := memory.map (· % 65536) }

def encodeCells (cells : List Int) : Except Snapshot.Error Bytes :=
  if cells.length = numCells then .ok (Word.pack (cells.map Word.ofInt))
  else .error (.imageSize cells.length)

/-- The depth of a stack in four bytes. -/
def depthBytes (depth : Nat) : Bytes :=
  (Word.ofInt depth).bytes ++ (Word.ofInt (depth / 65536 : Nat)).bytes

def encode (s : Snapshot) : Except Snapshot.Error Bytes := do
  let cells ← encodeCells s.memory
  return (Word.ofInt s.pc).bytes ++ depthBytes s.stack.length
    ++ Word.pack (s.stack.map Word.ofInt) ++ cells

def decode : Bytes → Except Snapshot.Error Snapshot
  | p₀ :: p₁ :: d₀ :: d₁ :: d₂ :: d₃ :: body =>
      let depth := (Word.ofBytes d₀ d₁).toNat + 65536 * (Word.ofBytes d₂ d₃).toNat
      if body.length = 2 * depth + 2 * numCells then
        let values := (Word.unpack body).map fun w => (w.toNat : Int)
        .ok { pc := (Word.ofBytes p₀ p₁).toNat, stack := values.take depth,
              memory := values.drop depth }
      else .error (.sizeMismatch depth (headerSize + body.length))
  | _ => .error .tooSmall

end Snapshot

def Machine.snapshot (m : Machine) : Snapshot :=
  Snapshot.capture m.pc m.stack.reverse (m.memory.toList.map fun w => (w.toNat : Int))

/-- The machine that goes on from a snapshot; the cycle counter stays. -/
def Machine.restored (m : Machine) (s : Snapshot) : Except Snapshot.Error Machine :=
  match Memory.ofValues s.memory with
  | .ok memory =>
      .ok { m with memory, pc := s.pc, stack := s.stack.reverse, running := true, fault := none }
  | .error _ => .error (.cellMismatch s.memory.length)

end WordMachine
