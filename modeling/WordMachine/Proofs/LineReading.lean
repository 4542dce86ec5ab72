import Mathlib.Data.List.TakeWhile
import Std.Data.String.ToInt
import WordMachine.Disassembly

/-!
# Reading disassembled lines

A line names its instruction: the mnemonic is what stands before the first space, and each operand
is a piece without spaces and commas that shows its code unit, whatever else it shows. A reader
that goes by these rules gets the instruction and its operands back from every line of an
instruction, with or without contents of registers, and nothing from any other line.
-/

namespace WordMachine

namespace Text

/-- The characters that numbers are written with. -/
def isFigure (c : Char) : Bool := c == '-' || c.isDigit

theorem isFigure_of_mem_nat {n : Nat} {c : Char} (mem : c ∈ (toString n).toList) :
    isFigure c = true := by
  rw [Nat.toString_eq_ofList_toDigits, String.toList_ofList] at mem
  rw [isFigure, Nat.isDigit_of_mem_toDigits (by decide) (by decide) mem, Bool.or_true]

theorem isFigure_of_mem_int {n : Int} {c : Char} (mem : c ∈ (toString n).toList) :
    isFigure c = true := by
  cases n with
  | ofNat n => exact isFigure_of_mem_nat mem
  | negSucc n =>
      change c ∈ ("-" ++ toString (n + 1)).toList at mem
      rw [String.toList_append, List.mem_append] at mem
      rcases mem with sign | digit
      · rw [List.mem_singleton.mp sign]
        rfl
      · exact isFigure_of_mem_nat digit

theorem toInt?_toString (n : Int) : (String.ofList (toString n).toList).toInt? = some n := by
  rw [String.ofList_toList, Int.toString_eq_repr, Int.toInt?_repr]

end Text

namespace Opcode

theorem eq_code_of_ofInt? {unit : Int} {op : Opcode} (named : ofInt? unit = some op) :
    unit = op.code := by
  have in_order : ∀ n : Fin all.length, all[n].code = n := by decide
  unfold ofInt? ofNat? at named
  split at named
  · cases named
  · obtain ⟨inside, rfl⟩ := List.getElem?_eq_some_iff.mp named
    have place := in_order ⟨unit.toNat, inside⟩
    simp only [Fin.getElem_fin] at place
    omega

theorem ofMnemonic?_mnemonic (op : Opcode) : ofMnemonic? op.mnemonic = some op := by
  cases op <;> rfl

theorem mnemonic_bare (op : Opcode) : ∀ c ∈ op.mnemonic.toList, (c != ' ') = true := by
  have bare : op.mnemonic.toList.all (· != ' ') = true := by cases op <;> rfl
  exact List.all_eq_true.mp bare

end Opcode

namespace Disassembly

/-- The code unit that an operand shows: a number as it stands, behind a question mark or not, and
the name of a register, with or without a content behind it. -/
def readUnit? : List Char → Option Int
  | 'r' :: cs => (String.ofList (cs.takeWhile (· != '='))).toInt?.map (numAddresses + ·)
  | '?' :: cs => (String.ofList cs).toInt?
  | cs => (String.ofList cs).toInt?

/-- The characters that an operand is shown with. -/
def isOperandChar (c : Char) : Bool := c != ',' && c != ' '

/-- The code units of the given number of operands, which commas and spaces part. -/
def readUnits? : Nat → List Char → Option (List Int)
  | 0, _ => some []
  | n + 1, cs => do
      let unit ← readUnit? (cs.takeWhile isOperandChar)
      let units ← readUnits? n ((cs.dropWhile isOperandChar).drop 2)
      return unit :: units

/-- The instruction that a line shows, with its operands. -/
def readLine? (cs : List Char) : Option (Opcode × List Int) := do
  let op ← Opcode.ofMnemonic? (String.ofList (cs.takeWhile (· != ' ')))
  let units ← readUnits? op.arity ((cs.dropWhile (· != ' ')).drop 1)
  return (op, units)

namespace Shown

/-- The code unit that is shown. -/
def unit : Shown → Int
  | .literal value => value
  | .register index _ => numAddresses + index
  | .invalid unit => unit

theorem unit_ofUnit (unit : Int) (registers : Option (List Int)) :
    (ofUnit unit registers).unit = unit := by
  unfold ofUnit
  split
  · rfl
  · split
    · simp only [Shown.unit]
      omega
    · rfl

theorem toList_text_literal (value : Int) :
    (text (.literal value)).toList = (toString value).toList := rfl

theorem toList_text_register (index : Nat) :
    (text (.register index none)).toList = 'r' :: (toString index).toList := by
  rw [text, String.toList_append]
  rfl

theorem toList_text_content (index : Nat) (content : Int) :
    (text (.register index (some content))).toList =
      'r' :: (toString index).toList ++ '=' :: (toString content).toList := by
  simp only [text, String.toList_append, List.append_assoc]
  rfl

theorem toList_text_invalid (value : Int) :
    (text (.invalid value)).toList = '?' :: (toString value).toList := by
  rw [text, String.toList_append]
  rfl

theorem readUnit?_text (s : Shown) : readUnit? s.text.toList = some s.unit := by
  cases s with
  | literal value =>
      have starts (c : Char) (other : Text.isFigure c = false) (cs : List Char) :
          (toString value).toList ≠ c :: cs := by
        intro same
        have figure := Text.isFigure_of_mem_int (same ▸ List.mem_cons_self)
        rw [other] at figure
        cases figure
      rw [toList_text_literal, readUnit?, Text.toInt?_toString, unit]
      · exact starts 'r' rfl
      · exact starts '?' rfl
  | register index content =>
      have name : ∀ c ∈ (toString index).toList, (c != '=') = true := by
        intro c mem
        have figure := Text.isFigure_of_mem_nat mem
        rw [bne_iff_ne]
        rintro rfl
        cases figure
      have number : (String.ofList (toString index).toList).toInt? = some (index : Int) :=
        Text.toInt?_toString index
      cases content with
      | none =>
          rw [toList_text_register, readUnit?, List.takeWhile_eq_self_iff.mpr name, number]
          rfl
      | some content =>
          rw [toList_text_content, List.cons_append, readUnit?,
            List.takeWhile_append_of_pos name, List.takeWhile_cons_of_neg (by decide),
            List.append_nil, number]
          rfl
  | invalid value => rw [toList_text_invalid, readUnit?, Text.toInt?_toString, unit]

theorem isOperandChar_of_isFigure {c : Char} (figure : Text.isFigure c = true) :
    isOperandChar c = true := by
  unfold isOperandChar
  rw [Bool.and_eq_true, bne_iff_ne, bne_iff_ne]
  constructor <;> rintro rfl <;> cases figure

theorem isOperandChar_of_mem_text {s : Shown} {c : Char} (mem : c ∈ s.text.toList) :
    isOperandChar c = true := by
  cases s with
  | literal value => exact isOperandChar_of_isFigure (Text.isFigure_of_mem_int mem)
  | register index content =>
      cases content with
      | none =>
          rw [toList_text_register, List.mem_cons] at mem
          rcases mem with rfl | name
          · rfl
          · exact isOperandChar_of_isFigure (Text.isFigure_of_mem_nat name)
      | some content =>
          rw [toList_text_content, List.cons_append, List.mem_cons, List.mem_append,
            List.mem_cons] at mem
          rcases mem with rfl | name | rfl | shown
          · rfl
          · exact isOperandChar_of_isFigure (Text.isFigure_of_mem_nat name)
          · rfl
          · exact isOperandChar_of_isFigure (Text.isFigure_of_mem_int shown)
  | invalid value =>
      rw [toList_text_invalid, List.mem_cons] at mem
      rcases mem with rfl | shown
      · rfl
      · exact isOperandChar_of_isFigure (Text.isFigure_of_mem_int shown)

end Shown

/-- Whatever follows the last operand, it starts with a space. -/
theorem readUnits?_intercalate (shown : List Shown) {rest : List Char}
    (parted : ∀ c ∈ rest.head?, c = ' ') :
    readUnits? shown.length ((", ".intercalate (shown.map Shown.text)).toList ++ rest) =
      some (shown.map Shown.unit) := by
  have stops : rest.takeWhile isOperandChar = [] := by
    cases rest with
    | nil => rfl
    | cons c cs =>
        rw [parted c rfl]
        rfl
  rw [String.toList_intercalate, List.map_map]
  induction shown with
  | nil => rfl
  | cons s later ih =>
      have piece : ∀ c ∈ s.text.toList, isOperandChar c = true :=
        fun c => Shown.isOperandChar_of_mem_text
      cases later with
      | nil =>
          rw [List.map_cons, List.map_nil, List.intercalate_singleton, List.length_singleton,
            readUnits?, Function.comp_apply, List.takeWhile_append_of_pos piece, stops,
            List.append_nil, Shown.readUnit?_text]
          rfl
      | cons t others =>
          -- Behind a piece comes a comma, at which it ends, and a space, which is dropped with it.
          have gap (back : List Char) :
              (", ".toList ++ back).takeWhile isOperandChar = [] ∧
                ((", ".toList ++ back).dropWhile isOperandChar).drop 2 = back := ⟨rfl, rfl⟩
          rw [List.map_cons, List.map_cons, List.intercalate_cons_cons, ← List.map_cons,
            List.length_cons, readUnits?, Function.comp_apply, List.append_assoc,
            List.append_assoc, List.takeWhile_append_of_pos piece,
            List.dropWhile_append_of_pos piece, (gap _).1, (gap _).2, List.append_nil,
            Shown.readUnit?_text, ih]
          rfl

theorem unit_operands (op : Opcode) (units : List Int) (registers : Option (List Int)) :
    (operands op units registers).map Shown.unit = units := by
  apply List.ext_getElem?
  intro k
  rw [List.getElem?_map, operands, List.getElem?_mapIdx]
  cases units[k]? with
  | none => rfl
  | some unit => exact congrArg some (Shown.unit_ofUnit unit _)

theorem length_operands (op : Opcode) (units : List Int) (registers : Option (List Int)) :
    (operands op units registers).length = units.length := List.length_mapIdx

theorem head?_comment (op : Opcode) (units : List Int) :
    ∀ c ∈ (comment op units).toList.head?, c = ' ' := by
  unfold comment
  split
  · split
    · rw [String.toList_append]
      intro c first
      exact (Option.some.inj first).symm
    · intro c first
      cases first
  · intro c first
    cases first

/-- From the line of an instruction the reader gets it back. -/
theorem readLine?_instruction {op : Opcode} {units : List Int} (count : units.length = op.arity)
    (registers : Option (List Int)) :
    readLine? (instruction op units registers).toList = some (op, units) := by
  cases units with
  | nil =>
      have name := List.takeWhile_eq_self_iff.mpr op.mnemonic_bare
      have none_left : op.arity = 0 := count.symm
      rw [instruction, readLine?, name, String.ofList_toList, Opcode.ofMnemonic?_mnemonic]
      simp only [Option.bind_eq_bind, Option.bind_some, none_left]
      rfl
  | cons first others =>
      let shown := operands op (first :: others) registers
      have chars : (instruction op (first :: others) registers).toList =
          op.mnemonic.toList ++ ' ' :: ((", ".intercalate (shown.map Shown.text)).toList ++
            (comment op (first :: others)).toList) := by
        simp only [instruction, String.toList_append, List.append_assoc]
        rfl
      have units := readUnits?_intercalate shown (head?_comment op (first :: others))
      rw [length_operands, unit_operands, count] at units
      rw [chars, readLine?, List.takeWhile_append_of_pos op.mnemonic_bare,
        List.takeWhile_cons_of_neg (by decide), List.append_nil, String.ofList_toList,
        Opcode.ofMnemonic?_mnemonic, List.dropWhile_append_of_pos op.mnemonic_bare,
        List.dropWhile_cons_of_neg (by decide), List.drop_one, List.tail_cons]
      simp only [Option.bind_eq_bind, Option.bind_some, units]
      rfl

theorem readLine?_word (unit : Int) : readLine? (".word " ++ toString unit).toList = none := by
  have name : (".word " ++ toString unit).toList.takeWhile (· != ' ') = ".word".toList := by
    rw [String.toList_append]
    rfl
  rw [readLine?, name]
  rfl

/-- An instruction stands at a place in a list of words, with all its operands. -/
structure Stands (words : Array Int) (pc : Int) (op : Opcode) (units : List Int) : Prop where
  start : 0 ≤ pc
  named : words[pc.toNat]? = some (op.code : Int)
  count : units.length = op.arity
  placed : ∀ k < op.arity, words[pc.toNat + 1 + k]? = units[k]?

theorem line_of_stands {words : Array Int} {pc : Int} {op : Opcode} {units : List Int}
    (h : Stands words pc op units) (registers : Option (List Int)) :
    line words pc registers =
      if (operands op units registers).all Shown.isWritable then
        .ok (instruction op units registers)
      else .error .tooManyDigits := by
  have known : Opcode.ofInt? (op.code : Int) = some op := by
    rw [Opcode.ofInt?, if_neg (by omega), Int.toNat_natCast, Opcode.ofNat?_code]
  have found : (List.range op.arity).map (fun k => words.getD (pc.toNat + 1 + k) 0) = units := by
    apply List.ext_getElem
    · rw [List.length_map, List.length_range, h.count]
    · intro k inside inside'
      have at_k := h.placed k (h.count ▸ inside')
      rw [List.getElem_map, List.getElem_range, Array.getD_eq_getD_getElem?, at_k,
        List.getElem?_eq_getElem inside', Option.getD_some]
  unfold line
  rw [if_neg (Int.not_lt.mpr h.start), h.named]
  simp only [known, found]

theorem readLine?_of_stands {words : Array Int} {pc : Int} {op : Opcode} {units : List Int}
    {registers : Option (List Int)} {text : String} (h : Stands words pc op units)
    (written : line words pc registers = .ok text) : readLine? text.toList = some (op, units) := by
  rw [line_of_stands h] at written
  split at written
  · rw [← Except.ok.inj written]
    exact readLine?_instruction h.count registers
  · cases written

theorem readLine?_of_outside {words : Array Int} {pc : Int} {registers : Option (List Int)}
    {text : String} (outside : pc < 0 ∨ words.size ≤ pc)
    (written : line words pc registers = .ok text) : readLine? text.toList = none := by
  have shown : line words pc registers = .ok "<out of range>" := by
    unfold line
    by_cases negative : pc < 0
    · rw [if_pos negative]
    · rw [if_neg negative, Array.getElem?_eq_none (by omega)]
  rw [shown] at written
  rw [← Except.ok.inj written]
  rfl

theorem readLine?_of_unknown {words : Array Int} {pc unit : Int} {registers : Option (List Int)}
    {text : String} (start : 0 ≤ pc) (at_pc : words[pc.toNat]? = some unit)
    (unknown : ∀ op : Opcode, unit ≠ op.code) (written : line words pc registers = .ok text) :
    readLine? text.toList = none := by
  have unnamed : Opcode.ofInt? unit = none := by
    rw [Option.eq_none_iff_forall_ne_some]
    intro op named
    exact unknown op (Opcode.eq_code_of_ofInt? named)
  unfold line at written
  rw [if_neg (Int.not_lt.mpr start), at_pc] at written
  simp only [unnamed, Text.writeInt] at written
  split at written
  · rw [← Except.ok.inj written]
    exact readLine?_word unit
  · cases written

/-- A line of an instruction is the line of no other one, whatever is known of the registers, and
neither that of a word which names no instruction nor that of a place outside. -/
theorem line_unambiguous {words : Array Int} {pc : Int} {op : Opcode} {units : List Int}
    {registers : Option (List Int)} {text : String} (h : Stands words pc op units)
    (written : line words pc registers = .ok text) :
    (∀ (words' : Array Int) (pc' : Int) (op' : Opcode) (units' : List Int)
      (registers' : Option (List Int)), Stands words' pc' op' units' →
      line words' pc' registers' = .ok text → op' = op ∧ units' = units) ∧
    (∀ (words' : Array Int) (pc' unit : Int) (registers' : Option (List Int)), 0 ≤ pc' →
      words'[pc'.toNat]? = some unit → (∀ op' : Opcode, unit ≠ op'.code) →
      line words' pc' registers' ≠ .ok text) ∧
    (∀ (words' : Array Int) (pc' : Int) (registers' : Option (List Int)),
      pc' < 0 ∨ words'.size ≤ pc' → line words' pc' registers' ≠ .ok text) := by
  have reads := readLine?_of_stands h written
  refine ⟨?_, ?_, ?_⟩
  · intro words' pc' op' units' registers' h' written'
    have same := (readLine?_of_stands h' written').symm.trans reads
    simpa using same
  · intro words' pc' unit registers' start at_pc unknown written'
    rw [readLine?_of_unknown start at_pc unknown written'] at reads
    cases reads
  · intro words' pc' registers' outside written'
    rw [readLine?_of_outside outside written'] at reads
    cases reads

theorem signed_line_unambiguous :
    (Stands #[9, 32768, 32769, -3] 0 .add [32768, 32769, -3] ∧
      line #[9, 32768, 32769, -3] 0 (some [5, -9]) = .ok "add r0, r1=-9, -3") ∧
    (Stands #[21, 9, 32768, 32769, 3] 1 .add [32768, 32769, 3] ∧
      (0 : Int) ≤ 0 ∧ #[(22 : Int)][(0 : Int).toNat]? = some 22 ∧
      (∀ op : Opcode, (22 : Int) ≠ op.code) ∧ (#[(9 : Int)].size : Int) ≤ 1) ∧
    line #[21, 9, 32768, 32769, 3] 1 none ≠ .ok "add r0, r1=-9, -3" ∧
    line #[22] 0 none ≠ .ok "add r0, r1=-9, -3" ∧
    line #[9] 1 none ≠ .ok "add r0, r1=-9, -3" := by
  have stands : Stands #[9, 32768, 32769, -3] 0 .add [32768, 32769, -3] :=
    ⟨by decide, rfl, rfl, by decide⟩
  have written : line #[9, 32768, 32769, -3] 0 (some [5, -9]) = .ok "add r0, r1=-9, -3" := by
    decide +kernel
  have other : Stands #[21, 9, 32768, 32769, 3] 1 .add [32768, 32769, 3] :=
    ⟨by decide, rfl, rfl, by decide⟩
  have unknown : ∀ op : Opcode, (22 : Int) ≠ op.code := by
    intro op
    cases op <;> decide
  obtain ⟨instructions, words, outside⟩ := line_unambiguous stands written
  refine ⟨⟨stands, written⟩, ⟨other, by decide, rfl, unknown, by decide⟩, ?_, ?_, ?_⟩
  · intro same
    have units := (instructions _ _ _ _ _ other same).2
    revert units
    decide
  · exact words _ _ _ _ (by decide) rfl unknown
  · exact outside _ _ _ (.inr (by decide))

end Disassembly

end WordMachine
