import WordMachine.Proofs.Escapes
import WordMachine.Proofs.InstructionTable

/-!
# Trace lines

What is recorded of a step: a line of printable characters that names the instruction which the
step starts with and shows its operands, a register with the content that an operand has there, but
for the one that names a destination. A step without such an instruction leaves no record.
-/

namespace WordMachine

namespace Instruction

/-- The operands are the units behind the one that names the instruction. -/
theorem operands_of_instructionAt {m : Memory} {pc : Nat} {i : Instruction}
    (found : m.instructionAt pc = .ok i) :
    i.operands = (List.range i.opcode.arity).map fun k => m.unitAt (pc + 1 + k) := by
  unfold Memory.instructionAt at found
  simp only at found
  split at found
  · cases found
  · next op named =>
      split at found
      · cases found
      · obtain rfl := Except.ok.inj found
        have at_most : op.arity ≤ 3 := by cases op <;> decide
        unfold operands
        dsimp only
        generalize op.arity = n at at_most ⊢
        obtain rfl | rfl | rfl | rfl : n = 0 ∨ n = 1 ∨ n = 2 ∨ n = 3 := by omega
        all_goals simp [List.range_succ, Nat.add_assoc]

end Instruction

/-- A number of sixteen bits is short enough to be written. -/
theorem Text.isWritable_toNat (w : Word) : isWritable (w.toNat : Int) = true := by
  have grows (k : Nat) (enough : 5 ≤ k) : 65536 ≤ Nat.pow 10 k :=
    Nat.le_trans (by decide) (Nat.pow_le_pow_right (by decide) enough)
  have fits : w.toNat < Nat.pow 10 maxDigits :=
    Nat.lt_of_lt_of_le w.toNat_lt (grows maxDigits (by decide))
  unfold isWritable
  rw [Int.natAbs_natCast, decide_eq_true_eq]
  exact fits

/-- Whether an operand is shown with its content if it is a register: all are but the first one
where that names a destination. -/
def Opcode.showsContent (op : Opcode) (k : Nat) : Bool := !(decide (k = 0) && op.hasDestination)

namespace Disassembly

theorem getElem?_operands (op : Opcode) (units : List Word) (registers : Option (List Int))
    (k : Nat) :
    (operands op (units.map fun w => (w.toNat : Int)) registers)[k]? =
      units[k]?.map fun unit =>
        Shown.ofUnit unit.toNat (if op.showsContent k then registers else none) := by
  unfold operands Opcode.showsContent
  rw [List.getElem?_mapIdx, List.getElem?_map]
  cases units[k]? with
  | none => rfl
  | some unit =>
      simp only [Option.map_some]
      cases decide (k = 0) && op.hasDestination <;> rfl

/-- A unit of sixteen bits is shown as a number, as a register or as neither. -/
theorem Shown.ofUnit_cases (unit : Word) (registers : Option (List Int)) :
    (unit.toNat < numAddresses ∧ ofUnit unit.toNat registers = .literal unit.toNat) ∨
      (∃ index < numRegisters, unit.toNat = numAddresses + index ∧
        ofUnit unit.toNat registers = .register index (registers.bind (·[index]?))) ∨
      (numCells ≤ unit.toNat ∧ ofUnit unit.toNat registers = .invalid unit.toNat) := by
  have cells : numCells = numAddresses + numRegisters := rfl
  unfold ofUnit
  by_cases low : unit.toNat < numAddresses
  · exact .inl ⟨low, if_pos (by omega)⟩
  · by_cases named : unit.toNat < numCells
    · refine .inr (.inl ⟨unit.toNat - numAddresses, by omega, by omega, ?_⟩)
      have index : ((unit.toNat : Int) - numAddresses).toNat = unit.toNat - numAddresses := by
        omega
      rw [if_neg (by omega), if_pos (by omega)]
      dsimp only
      rw [index]
    · exact .inr (.inr ⟨by omega, by rw [if_neg (by omega), if_neg (by omega)]⟩)

end Disassembly

namespace Machine

variable {m : Machine} {i : Instruction}

/-- The step has an instruction to start with: its opcode is known, and it ends within the
addresses. -/
def Traceable (m : Machine) : Prop :=
  0 ≤ m.pc ∧ m.pc < numAddresses ∧
    ∃ op, Opcode.ofNat? (m.memory.unitAt m.pc.toNat).toNat = some op ∧
      m.pc + op.arity < numAddresses

theorem traceable_iff : m.Traceable ↔ ∃ i, m.fetched = .ok i := by
  simp only [fetched, except_bind_eq_ok, codeAddress_eq_ok_iff]
  constructor
  · rintro ⟨least, most, op, named, fits⟩
    have inside : ¬numAddresses ≤ m.pc.toNat + op.arity := by omega
    rcases found : m.memory.instructionAt m.pc.toNat with cause | i
    · simp [Memory.instructionAt, named, inside] at found
    · exact ⟨i, m.pc.toNat, ⟨by omega, by omega⟩, found⟩
  · rintro ⟨i, pc, ⟨at_pc, bound⟩, found⟩
    have same : m.pc.toNat = pc := by omega
    unfold Memory.instructionAt at found
    simp only at found
    split at found
    · cases found
    · next op named =>
        split at found
        · cases found
        · next inside => exact ⟨by omega, by omega, op, by rw [same]; exact named, by omega⟩

/-- The contents of all cells, those of the registers at the end. -/
def words (m : Machine) : Array Int := (m.memory.toList.map fun w => (w.toNat : Int)).toArray

def registerContents (m : Machine) : List Int := m.memory.registers.map fun w => (w.toNat : Int)

theorem getElem?_words {n : Nat} (inside : n < numCells) :
    m.words[n]? = some ((m.memory.unitAt n).toNat : Int) := by
  simp [words, Memory.toList, Memory.unitAt, Memory.get, inside]

theorem getD_words (n : Nat) : m.words.getD n 0 = ((m.memory.unitAt n).toNat : Int) := by
  by_cases inside : n < numCells
  · rw [Array.getD_eq_getD_getElem?, getElem?_words inside, Option.getD_some]
  · rw [Array.getD_eq_getD_getElem?]
    simp [words, Memory.toList, Memory.unitAt, inside]

theorem getElem?_registerContents {index : Nat} (inside : index < numRegisters) :
    m.registerContents[index]? = some ((m.memory.unitAt (numAddresses + index)).toNat : Int) := by
  have cell : numAddresses + index < numCells := Nat.add_lt_add_left inside numAddresses
  unfold registerContents Memory.registers Memory.unitAt
  rw [dif_pos cell, List.getElem?_map, List.getElem?_ofFn, dif_pos inside]
  rfl

theorem isWritable_ofUnit (unit : Word) (valued : Bool) :
    (Disassembly.Shown.ofUnit unit.toNat
      (if valued then some m.registerContents else none)).isWritable = true := by
  unfold Disassembly.Shown.isWritable
  obtain ⟨-, shown⟩ | ⟨index, inside, -, shown⟩ | ⟨-, shown⟩ := Disassembly.Shown.ofUnit_cases unit
    (if valued then some m.registerContents else none)
  · rw [shown, Disassembly.Shown.number?, Option.all_some]
    exact Text.isWritable_toNat unit
  · rw [shown, Disassembly.Shown.number?]
    cases valued with
    | false => rfl
    | true =>
        rw [if_pos rfl, Option.bind_some, getElem?_registerContents inside, Option.all_some]
        exact Text.isWritable_toNat _
  · rw [shown, Disassembly.Shown.number?, Option.all_some]
    exact Text.isWritable_toNat unit

/-- The line that the trace shows is the disassembly of the words at the program counter. -/
theorem line_of_fetched (fetched : m.fetched = .ok i) :
    Disassembly.line m.words m.pc (some m.registerContents) =
      .ok (Disassembly.fetched i m.memory) := by
  obtain ⟨pc, address, found⟩ := except_bind_eq_ok.mp fetched
  obtain ⟨at_pc, bound⟩ := codeAddress_eq_ok_iff.mp address
  have operands := Instruction.operands_of_instructionAt found
  have named : Opcode.ofNat? (m.memory.unitAt pc).toNat = some i.opcode := by
    unfold Memory.instructionAt at found
    simp only at found
    split at found
    · cases found
    · next op named =>
        split at found
        · cases found
        · rw [named, ← Except.ok.inj found]
  have units : ((List.range i.opcode.arity).map fun k => m.words.getD (pc + 1 + k) 0) =
      i.operands.map fun w => (w.toNat : Int) := by
    rw [operands, List.map_map]
    exact List.map_congr_left fun k _ => getD_words _
  have inside : pc < numCells := Nat.lt_trans bound (by decide)
  have writable : (Disassembly.operands i.opcode (i.operands.map fun w => (w.toNat : Int))
      (some m.registerContents)).all Disassembly.Shown.isWritable = true := by
    rw [List.all_eq_true]
    intro shown mem
    obtain ⟨k, at_k⟩ := List.mem_iff_getElem?.mp mem
    rw [Disassembly.getElem?_operands, Option.map_eq_some_iff] at at_k
    obtain ⟨unit, -, rfl⟩ := at_k
    exact isWritable_ofUnit unit _
  unfold Disassembly.line
  rw [at_pc, if_neg (by omega), Int.toNat_natCast, getElem?_words inside]
  simp only [Opcode.ofInt?, Int.toNat_natCast]
  rw [if_neg (by omega), named]
  simp only [units, writable, if_true]
  rfl

/-- What an operand may look like: a literal is shown as it is, a register by its name, with what
it stands for as an operand if its content is shown, and anything else behind a question mark. -/
inductive Shows (m : Machine) (unit : Word) : Bool → String → Prop where
  | literal {valued : Bool} (low : unit.toNat < numAddresses) :
      Shows m unit valued (toString unit.toNat)
  | content {index : Nat} {content : Int} (named : unit.toNat = numAddresses + index)
      (register : index < numRegisters) (stands : m.memory.resolve unit.toNat = .ok content) :
      Shows m unit true s!"r{index}={content}"
  | register {index : Nat} (named : unit.toNat = numAddresses + index)
      (register : index < numRegisters) : Shows m unit false s!"r{index}"
  | invalid {valued : Bool} (high : numCells ≤ unit.toNat) :
      Shows m unit valued s!"?{unit.toNat}"

theorem shows_ofUnit (m : Machine) (unit : Word) (valued : Bool) :
    m.Shows unit valued (Disassembly.Shown.ofUnit unit.toNat
      (if valued then some m.registerContents else none)).text := by
  obtain ⟨low, shown⟩ | ⟨index, inside, named, shown⟩ | ⟨high, shown⟩ :=
    Disassembly.Shown.ofUnit_cases unit (if valued then some m.registerContents else none)
  · rw [shown]
    exact .literal low
  · rw [shown]
    cases valued with
    | false => exact .register named inside
    | true =>
        rw [if_pos rfl, Option.bind_some, getElem?_registerContents inside]
        refine .content named inside ?_
        have high : ¬unit.toNat < 32768 := by
          rw [named]
          exact Nat.not_lt.mpr (Nat.le_add_right numAddresses index)
        have cell : unit.toNat < 32776 := by
          rw [named]
          exact Nat.add_lt_add_left inside numAddresses
        rw [Memory.resolve_toNat, Memory.operand_eq, if_pos cell, Memory.denoted, if_neg high,
          named]
        rfl
  · rw [shown]
    exact .invalid high

/-- The text shows an instruction: its mnemonic, and behind it what its operands look like. -/
def Displays (m : Machine) (i : Instruction) (text : String) : Prop :=
  ∃ pieces : List String,
    pieces.length = i.operands.length ∧
      (∀ (k : Nat) (unit : Word) (piece : String), i.operands[k]? = some unit →
        pieces[k]? = some piece → m.Shows unit (i.opcode.showsContent k) piece) ∧
      text =
        if i.operands = [] then i.opcode.mnemonic
        else i.opcode.mnemonic ++ " " ++ ", ".intercalate pieces ++
          Disassembly.comment i.opcode (i.operands.map fun w => (w.toNat : Int))

theorem displays_fetched (m : Machine) (i : Instruction) :
    m.Displays i (Disassembly.fetched i m.memory) := by
  let units : List Int := i.operands.map fun w => (w.toNat : Int)
  let shown := Disassembly.operands i.opcode units (some m.registerContents)
  refine ⟨shown.map Disassembly.Shown.text, ?_, ?_, ?_⟩
  · simp [shown, units, Disassembly.operands]
  · intro k unit piece at_k piece_at_k
    rw [List.getElem?_map, Disassembly.getElem?_operands, at_k] at piece_at_k
    obtain rfl := Option.some.inj piece_at_k
    exact m.shows_ofUnit unit _
  · unfold Disassembly.fetched Disassembly.instruction
    cases operands : i.operands with
    | nil => rfl
    | cons first rest =>
        rw [if_neg (List.cons_ne_nil first rest)]
        simp only [shown, units, operands]
        rfl

end Machine

/-- The cell that an effect writes to, or will when a character comes. -/
def Effect.cell? : Effect → Option Cell
  | .store cell _ | .pop cell _ | .await cell => some cell
  | _ => none

namespace Instruction

variable {i : Instruction} {m : Memory} {stack : List Int} {e : Effect}

/-- The instructions whose first operand names a destination are those that write through it. -/
theorem cell?_of_hasDestination (settled : i.effect m stack = .ok e)
    (destination : i.opcode.hasDestination = true) :
    ∃ cell, e.cell? = some cell ∧ i.a.toNat = cell := by
  unfold effect at settled
  cases op : i.opcode with
  | set | not =>
      simp only [op, except_bind_eq_ok, pure, Except.pure, Memory.locate_eq_ok_iff,
        Except.ok.injEq, Int.natCast_inj] at settled
      obtain ⟨_, -, cell, at_cell, rfl⟩ := settled
      exact ⟨cell, rfl, at_cell⟩
  | eq | gt | add | mult | and | or | fetch =>
      simp only [op, except_bind_eq_ok, pure, Except.pure, Memory.locate_eq_ok_iff,
        Except.ok.injEq, Int.natCast_inj] at settled
      obtain ⟨_, -, _, -, cell, at_cell, rfl⟩ := settled
      exact ⟨cell, rfl, at_cell⟩
  | mod =>
      simp only [op, except_bind_eq_ok, pure, Except.pure] at settled
      obtain ⟨divisor, -, settled⟩ := settled
      split at settled
      · cases settled
      · simp only [except_bind_eq_ok, Memory.locate_eq_ok_iff, Except.ok.injEq,
          Int.natCast_inj] at settled
        obtain ⟨_, -, cell, at_cell, rfl⟩ := settled
        exact ⟨cell, rfl, at_cell⟩
  | pop =>
      cases stack with
      | nil => simp [op] at settled
      | cons top rest =>
          simp only [op, except_bind_eq_ok, pure, Except.pure, Memory.locate_eq_ok_iff,
            Except.ok.injEq, Int.natCast_inj] at settled
          obtain ⟨cell, at_cell, rfl⟩ := settled
          exact ⟨cell, rfl, at_cell⟩
  | input =>
      simp only [op] at settled
      split at settled
      · next inside =>
          obtain rfl := Except.ok.inj settled
          exact ⟨_, rfl, rfl⟩
      · cases settled
  | _ => simp [op, Opcode.hasDestination] at destination

/-- Of the other instructions only one writes to memory: to where its first operand points. -/
theorem store_of_cell? {cell : Cell} (settled : i.effect m stack = .ok e)
    (plain : i.opcode.hasDestination = false) (writes : e.cell? = some cell) :
    i.opcode = .store ∧ m.resolve i.a.toNat = .ok (cell : Nat) := by
  unfold effect at settled
  cases op : i.opcode with
  | store =>
      simp only [op, except_bind_eq_ok, pure, Except.pure, Memory.locate_eq_ok_iff,
        Except.ok.injEq, Int.natCast_inj] at settled
      obtain ⟨_, -, other, points, target, at_other, rfl⟩ := settled
      obtain rfl : target = cell := Option.some.inj writes
      rw [Memory.resolve_toNat, points, ← at_other]
      exact ⟨rfl, rfl⟩
  | ret =>
      cases stack with
      | nil | cons =>
          simp only [op, Except.ok.injEq] at settled
          rw [← settled] at writes
          cases writes
  | jumpIf | jumpUnless =>
      simp only [op, except_bind_eq_ok, pure, Except.pure] at settled
      obtain ⟨x, -, settled⟩ := settled
      split at settled
      · simp only [except_bind_eq_ok, Except.ok.injEq] at settled
        obtain ⟨target, -, rfl⟩ := settled
        cases writes
      · rw [← Except.ok.inj settled] at writes
        cases writes
  | push | jump | call | output =>
      simp only [op, except_bind_eq_ok, pure, Except.pure, Except.ok.injEq] at settled
      obtain ⟨x, -, rfl⟩ := settled
      cases writes
  | halt | noop =>
      simp only [op, Except.ok.injEq] at settled
      rw [← settled] at writes
      cases writes
  | _ => simp [op, Opcode.hasDestination] at plain

end Instruction

namespace Text

/-- A text of printable characters of a single byte, and so of a single line. -/
def Ascii (s : String) : Prop := ∀ c ∈ s.toList, 32 ≤ c.toNat ∧ c.toNat < 127

instance (s : String) : Decidable (Ascii s) :=
  decidable_of_iff (s.toList.all fun c => decide (32 ≤ c.toNat) && decide (c.toNat < 127)) (by
    simp [Ascii])

theorem Ascii.append {s t : String} (front : Ascii s) (back : Ascii t) : Ascii (s ++ t) := by
  intro c mem
  rw [String.toList_append, List.mem_append] at mem
  exact mem.elim (front c) (back c)

theorem Ascii.intercalate {separator : String} {texts : List String} (between : Ascii separator)
    (each : ∀ text ∈ texts, Ascii text) : Ascii (separator.intercalate texts) := by
  intro c mem
  by_contra strange
  rw [String.toList_intercalate] at mem
  refine Path.not_mem_intercalate (fun at_gap => strange (between c at_gap)) ?_ mem
  intro text among at_text
  obtain ⟨shown, given, rfl⟩ := List.mem_map.mp among
  exact strange (each shown given c at_text)

theorem ascii_nat (n : Nat) : Ascii (toString n) := by
  intro c mem
  rw [Nat.toString_eq_ofList_toDigits, String.toList_ofList] at mem
  have digit := Nat.isDigit_of_mem_toDigits (by decide) (by decide) mem
  simp only [Char.isDigit, Bool.and_eq_true, decide_eq_true_eq] at digit
  obtain ⟨least, most⟩ := digit
  have least : 48 ≤ c.toNat := least
  have most : c.toNat ≤ 57 := most
  omega

/-- Quotes around a printable character need no more than one escape sign. -/
theorem ascii_quote_singleton :
    ∀ n < 127, 32 ≤ n → Ascii (quote (String.singleton (Char.ofNat n))) := by
  decide +kernel

end Text

namespace Disassembly

theorem ascii_comment (op : Opcode) (units : List Int) : Text.Ascii (comment op units) := by
  unfold comment
  split
  · next unit =>
      split
      · next shown =>
          simp only [Bool.and_eq_true, decide_eq_true_eq] at shown
          have front : Text.Ascii "  ; " := by decide
          exact front.append (Text.ascii_quote_singleton unit.toNat (by omega) (by omega))
      · intro c mem
        simp at mem
  · intro c mem
    simp at mem

end Disassembly

namespace Machine

variable {m : Machine} {i : Instruction}

theorem Shows.ascii {unit : Word} {valued : Bool} {text : String} (h : m.Shows unit valued text) :
    Text.Ascii text := by
  cases h with
  | literal low => exact Text.ascii_nat unit.toNat
  | content named register stands =>
      rw [Memory.resolve_toNat] at stands
      cases found : m.memory.operand unit with
      | error cause =>
          rw [found] at stands
          cases stands
      | ok w =>
          rw [found] at stands
          obtain rfl := Except.ok.inj stands
          have number : Text.Ascii (toString (w.toNat : Int)) := Text.ascii_nat w.toNat
          exact .append (.append (.append (by decide) (Text.ascii_nat _)) (by decide)) number
  | register named register => exact .append (by decide) (Text.ascii_nat _)
  | invalid high => exact .append (by decide) (Text.ascii_nat _)

theorem Displays.ascii {text : String} (h : m.Displays i text) : Text.Ascii text := by
  obtain ⟨pieces, count, shows, rfl⟩ := h
  have mnemonic : Text.Ascii i.opcode.mnemonic := by cases i.opcode <;> decide
  split
  · exact mnemonic
  · refine .append (.append (.append mnemonic (by decide)) (.intercalate (by decide) ?_))
      (Disassembly.ascii_comment _ _)
    intro piece mem
    obtain ⟨k, at_k⟩ := List.mem_iff_getElem?.mp mem
    have inside : k < i.operands.length := by
      rw [← count]
      exact (List.getElem?_eq_some_iff.mp at_k).1
    exact (shows k _ piece (List.getElem?_eq_getElem inside) at_k).ascii

/-- What the record of a step says, if the step leaves one. -/
def traceLine? (m : Machine) : Option String :=
  match m.fetched with
  | .ok i => some (s!"[TRACE] pc={m.pc} " ++ Disassembly.fetched i m.memory)
  | .error _ => none

/-- A record is one line, which shows the instruction that the step starts with. An operand whose
content is not shown is one through which that instruction writes. -/
structure Described (m : Machine) (text : String) : Prop where
  one_line : Text.Ascii s!"[TRACE] pc={m.pc} {text}"
  shown : ∃ i, m.fetched = .ok i ∧ m.Displays i text ∧
    ∀ e, i.effect m.memory m.stack = .ok e →
      (i.opcode.hasDestination = true → ∃ cell, e.cell? = some cell ∧ i.a.toNat = cell) ∧
      (i.opcode.hasDestination = false → ∀ cell, e.cell? = some cell →
        i.opcode = .store ∧ m.memory.resolve i.a.toNat = .ok (cell : Nat))

theorem described_of_line {text : String} (traceable : m.Traceable)
    (line : Disassembly.line m.words m.pc (some m.registerContents) = .ok text) :
    m.Described text := by
  obtain ⟨i, fetched⟩ := traceable_iff.mp traceable
  rw [line_of_fetched fetched] at line
  obtain rfl := Except.ok.inj line
  have displays := m.displays_fetched i
  refine ⟨?_, i, fetched, displays, fun e settled => ⟨?_, ?_⟩⟩
  · have pc : Text.Ascii (toString m.pc) := by
      obtain ⟨n, at_n⟩ := Int.eq_ofNat_of_zero_le traceable.1
      rw [at_n]
      exact Text.ascii_nat n
    exact .append (.append (.append (by decide) pc) (by decide)) displays.ascii
  · exact Instruction.cell?_of_hasDestination settled
  · exact fun plain cell => Instruction.store_of_cell? settled plain

/-- The records of steps from some machines, in order: a step that has an instruction to start with
leaves one, with the disassembly of that instruction, and any other step leaves none. -/
inductive Recorded : List Machine → List String → Prop where
  | done : Recorded [] []
  | record {m : Machine} {ms : List Machine} {text : String} {lines : List String}
      (traceable : m.Traceable)
      (line : Disassembly.line m.words m.pc (some m.registerContents) = .ok text)
      (later : Recorded ms lines) : Recorded (m :: ms) (s!"[TRACE] pc={m.pc} {text}" :: lines)
  | none {m : Machine} {ms : List Machine} {lines : List String} (untraceable : ¬m.Traceable)
      (later : Recorded ms lines) : Recorded (m :: ms) lines

theorem recorded_filterMap (ms : List Machine) : Recorded ms (ms.filterMap traceLine?) := by
  induction ms with
  | nil => exact .done
  | cons m ms ih =>
      cases fetched : m.fetched with
      | ok i =>
          rw [List.filterMap_cons_some (by rw [traceLine?, fetched])]
          exact .record (traceable_iff.mpr ⟨i, fetched⟩) (line_of_fetched fetched) ih
      | error cause =>
          rw [List.filterMap_cons_none (by rw [traceLine?, fetched])]
          refine .none ?_ ih
          rw [traceable_iff]
          rintro ⟨i, other⟩
          rw [fetched] at other
          cases other

end Machine

end WordMachine
