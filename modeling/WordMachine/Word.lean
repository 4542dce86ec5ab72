/-!
# Code units

Program words, memory cells and instruction operands are sixteen bits wide. Units below 32768
are literals and addresses; the eight above them name registers. In byte strings a unit is
written least significant byte first.
-/

namespace WordMachine

abbrev Word := UInt16

abbrev Bytes := List UInt8

/-- The number of cells that a program image may fill. -/
abbrev numAddresses : Nat := 32768

abbrev numRegisters : Nat := 8

abbrev numCells : Nat := 32776

namespace Word

/-- The code unit congruent to `v` modulo 65536. -/
def ofInt (v : Int) : Word := UInt16.ofNat (v % 65536).toNat

/-- The low fifteen bits of a unit, the range of arithmetic results. -/
def low15 (w : Word) : Word := w % 32768

/-- The two bytes of a unit, least significant first. -/
def bytes (w : Word) : Bytes := [UInt8.ofNat w.toNat, UInt8.ofNat (w.toNat / 256)]

/-- The unit with the given low and high byte. -/
def ofBytes (low high : UInt8) : Word := UInt16.ofNat (low.toNat + 256 * high.toNat)

def pack (ws : List Word) : Bytes := ws.flatMap bytes

/-- The units written in a byte string after those in `acc`, which is in reverse. -/
def unpackOnto : Bytes → List Word → List Word
  | low :: high :: rest, acc => unpackOnto rest (ofBytes low high :: acc)
  | [_], acc => acc.reverse
  | [], acc => acc.reverse

/-- The units written in a byte string; a byte left over at the end is dropped. -/
def unpack (bs : Bytes) : List Word := unpackOnto bs []

private theorem unpackOnto_eq : ∀ (bs : Bytes) (acc : List Word),
    unpackOnto bs acc = acc.reverse ++ unpackOnto bs []
  | low :: high :: rest, acc => by
      rw [unpackOnto, unpackOnto, unpackOnto_eq rest, unpackOnto_eq rest [_]]
      simp
  | [_], acc => by simp [unpackOnto]
  | [], acc => by simp [unpackOnto]

@[simp] theorem unpack_nil : unpack [] = [] := rfl

@[simp] theorem unpack_singleton (b : UInt8) : unpack [b] = [] := rfl

@[simp] theorem unpack_cons_cons (low high : UInt8) (rest : Bytes) :
    unpack (low :: high :: rest) = ofBytes low high :: unpack rest := by
  rw [unpack, unpackOnto, unpackOnto_eq]
  rfl

@[simp] theorem pack_nil : pack [] = [] := rfl

@[simp] theorem pack_cons (w : Word) (ws : List Word) : pack (w :: ws) = w.bytes ++ pack ws := rfl

@[simp] theorem length_pack (ws : List Word) : (pack ws).length = 2 * ws.length := by
  induction ws with
  | nil => rfl
  | cons w ws ih => simp [ih, bytes]; omega

theorem toNat_ofInt (v : Int) : ((ofInt v).toNat : Int) = v % 65536 := by
  simp only [ofInt, UInt16.toNat_ofNat']
  omega

@[simp] theorem ofInt_toNat (w : Word) : ofInt (w.toNat : Int) = w := by
  apply UInt16.toNat_inj.mp
  have := toNat_ofInt w.toNat
  have := w.toNat_lt
  omega

theorem ofBytes_bytes (w : Word) :
    ofBytes (UInt8.ofNat w.toNat) (UInt8.ofNat (w.toNat / 256)) = w := by
  apply UInt16.toNat_inj.mp
  have := w.toNat_lt
  simp only [ofBytes, UInt8.toNat_ofNat', UInt16.toNat_ofNat']
  omega

theorem bytes_ofBytes (low high : UInt8) : (ofBytes low high).bytes = [low, high] := by
  have hl := low.toNat_lt
  have hh := high.toNat_lt
  simp only [bytes, ofBytes, UInt16.toNat_ofNat', List.cons.injEq, and_true]
  constructor <;> apply UInt8.toNat_inj.mp <;> simp only [UInt8.toNat_ofNat'] <;> omega

@[simp] theorem unpack_pack (ws : List Word) : unpack (pack ws) = ws := by
  induction ws with
  | nil => rfl
  | cons w ws ih =>
      rw [pack_cons, bytes, List.cons_append, List.cons_append, List.nil_append, unpack_cons_cons,
        ofBytes_bytes, ih]

end Word

end WordMachine
