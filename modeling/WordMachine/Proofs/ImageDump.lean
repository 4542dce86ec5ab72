import WordMachine.Proofs.CommandOutcome
import WordMachine.Proofs.MemoryTable

/-!
# From an image to a dump

An image that fits the address space goes through memory unharmed: a dump of the memory it was
loaded into is the image again, short of a byte left over at its end, with zeros behind it up to the
end of the registers. And any numbers that are written two bytes each are the units of their image.
-/

namespace WordMachine

namespace Word

/-- The two bytes of an integer modulo 65536, least significant first. -/
def twoBytes (v : Int) : Bytes :=
  [UInt8.ofNat (v % 256).toNat, UInt8.ofNat (v / 256 % 256).toNat]

theorem bytes_ofInt (v : Int) : (ofInt v).bytes = twoBytes v := by
  have unit := toNat_ofInt v
  simp only [bytes, twoBytes, List.cons.injEq, and_true]
  constructor <;> apply UInt8.toNat_inj.mp <;> simp only [UInt8.toNat_ofNat'] <;> omega

theorem pack_ofInt (vs : List Int) : pack (vs.map ofInt) = vs.flatMap twoBytes := by
  rw [pack, List.flatMap_map]
  exact congrArg (vs.flatMap ·) (funext bytes_ofInt)

theorem pack_append (ws ws' : List Word) : pack (ws ++ ws') = pack ws ++ pack ws' :=
  List.flatMap_append

theorem pack_replicate_zero (n : Nat) : pack (List.replicate n 0) = List.replicate (2 * n) 0 := by
  induction n with
  | zero => rfl
  | succ n ih =>
      rw [List.replicate_succ, pack_cons, ih]
      rfl

theorem unpack_of_short {bs : Bytes} (short : bs.length ≤ 1) : unpack bs = [] := by
  match bs, short with
  | [], _ => rfl
  | [_], _ => rfl

theorem unpack_append : ∀ {front : Bytes}, front.length % 2 = 0 → ∀ back : Bytes,
    unpack (front ++ back) = unpack front ++ unpack back
  | low :: high :: rest, even, back => by
      have ih := @unpack_append rest (by simp only [List.length_cons] at even; omega) back
      rw [List.cons_append, List.cons_append, unpack_cons_cons, unpack_cons_cons, ih,
        List.cons_append]
  | [_], even, _ => by simp at even
  | [], _, _ => rfl

/-- The bytes without the one left over. -/
def evenPart (bs : Bytes) : Bytes := bs.take (bs.length - bs.length % 2)

theorem length_evenPart (bs : Bytes) : (evenPart bs).length = 2 * (bs.length / 2) := by
  rw [evenPart, List.length_take]
  omega

theorem pack_unpack_evenPart (bs : Bytes) : pack (unpack bs) = evenPart bs := by
  have even : (evenPart bs).length % 2 = 0 := by
    rw [length_evenPart]
    omega
  have left_over : unpack (bs.drop (bs.length - bs.length % 2)) = [] := by
    apply unpack_of_short
    rw [List.length_drop]
    omega
  have parted := unpack_append even (bs.drop (bs.length - bs.length % 2))
  rw [evenPart, List.take_append_drop, left_over, List.append_nil] at parted
  rw [parted]
  exact pack_unpack _ even

end Word

namespace Memory

theorem unitAt_blank (n : Nat) : blank.unitAt n = 0 := by
  unfold unitAt
  split
  · exact get_blank _
  · rfl

theorem toList_fill_blank {ws : List Word} (fits : ws.length ≤ numCells) :
    (blank.fill 0 ws).toList = ws ++ List.replicate (numCells - ws.length) 0 := by
  rw [toList_eq]
  apply List.ext_getElem
  · simp only [List.length_map, List.length_range, List.length_append, List.length_replicate]
    omega
  · intro n inside inside'
    rw [List.getElem_map, List.getElem_range, unitAt_fill (by omega), unitAt_blank,
      List.getElem_append]
    by_cases given : n < ws.length
    · rw [if_pos (by omega), dif_pos given, Nat.sub_zero, List.getD_eq_getElem _ _ given]
    · rw [if_neg (by omega), dif_neg given, List.getElem_replicate]

end Memory

namespace Image

theorem unpack_of_long {bs : Bytes} (long : 65537 < bs.length) :
    unpack bs = .error (.tooLarge (bs.length / 2)) := by
  have space : numAddresses = 32768 := rfl
  rw [unpack, if_pos (by omega)]

theorem unpack_of_fitting {bs : Bytes} (fits : bs.length ≤ 65537) :
    unpack bs = .ok (Word.unpack bs) := by
  have space : numAddresses = 32768 := rfl
  rw [unpack, if_neg (by omega)]

/-- The dump of a new memory that units were loaded into. -/
theorem encodeCells_fill {words : List Word} (fits : words.length ≤ 32768) :
    Snapshot.encodeCells ((Memory.blank.fill 0 words).toList.map fun w => (w.toNat : Int)) =
      .ok (Word.pack words ++ List.replicate (65552 - 2 * words.length) 0) := by
  have cells : numCells = 32776 := rfl
  have zeros : 2 * (numCells - words.length) = 65552 - 2 * words.length := by omega
  rw [Memory.encodeCells_toList, Memory.toList_fill_blank (by omega), Word.pack_append,
    Word.pack_replicate_zero, zeros]

theorem get_registerCell_fill {words : List Word} (fits : words.length ≤ 32768) (i : Fin 8) :
    (Memory.blank.fill 0 words).get (Memory.registerCell i) = 0 := by
  have cells : numCells = 32776 := rfl
  have place : (Memory.registerCell i : Nat) = 32768 + i := rfl
  rw [← Memory.unitAt_cell, Memory.unitAt_fill (by omega), if_neg (by omega),
    Memory.unitAt_blank]

/-- An image of more than 65537 bytes is refused. Any other can be loaded, and the dump of the
memory is its units and zeros behind them, also in the registers. Numbers written two bytes each
are what their image holds, modulo 65536. -/
theorem unpack_load_dump :
    (∀ bs : Bytes, ((∃ e, unpack bs = .error e) ↔ 65537 < bs.length) ∧
      (65537 < bs.length → unpack bs = .error (.tooLarge (bs.length / 2)))) ∧
    (∀ bs : Bytes, bs.length ≤ 65537 → ∃ (words : List Word) (m : Memory),
      unpack bs = .ok words ∧
      Memory.blank.load (words.map fun w => (w.toNat : Int)) 0 = .ok m ∧
      Snapshot.encodeCells (m.toList.map fun w => (w.toNat : Int)) =
        .ok (bs.take (bs.length - bs.length % 2) ++
          List.replicate (65552 - (bs.length - bs.length % 2)) 0) ∧
      ∀ i : Fin 8, m.get (Memory.registerCell i) = 0) ∧
    (∀ (vs : List Int) (extra : Bytes), vs.length ≤ 32768 → extra.length ≤ 1 →
      ∃ words : List Word, unpack (vs.flatMap Word.twoBytes ++ extra) = .ok words ∧
        (words.map fun w => (w.toNat : Int)) = vs.map (· % 65536)) := by
  refine ⟨?_, ?_, ?_⟩
  · intro bs
    refine ⟨⟨?_, fun long => ⟨_, unpack_of_long long⟩⟩, unpack_of_long⟩
    rintro ⟨e, refused⟩
    by_contra short
    rw [unpack_of_fitting (Nat.not_lt.mp short)] at refused
    cases refused
  · intro bs fits
    have count : (Word.unpack bs).length ≤ 32768 := by
      rw [Word.length_unpack]
      omega
    have size : 2 * (Word.unpack bs).length = bs.length - bs.length % 2 := by
      rw [Word.length_unpack]
      omega
    refine ⟨_, _, unpack_of_fitting fits, Memory.load_units _ count, ?_,
      get_registerCell_fill count⟩
    rw [encodeCells_fill count, Word.pack_unpack_evenPart, size, Word.evenPart]
  · intro vs extra count short
    have even : (vs.flatMap Word.twoBytes).length = 2 * vs.length := by
      rw [← Word.pack_ofInt, Word.length_pack, List.length_map]
    have fits : (vs.flatMap Word.twoBytes ++ extra).length ≤ 65537 := by
      rw [List.length_append, even]
      omega
    refine ⟨_, unpack_of_fitting fits, ?_⟩
    rw [Word.unpack_append (by omega), Word.unpack_of_short short, List.append_nil,
      ← Word.pack_ofInt, Word.unpack_pack, Word.map_toNat_ofInt]

theorem odd_unpack_load_dump :
    (([1, 2, 3] : Bytes).length ≤ 65537 ∧ ∃ (words : List Word) (m : Memory),
      unpack [1, 2, 3] = .ok words ∧
      Memory.blank.load (words.map fun w => (w.toNat : Int)) 0 = .ok m ∧
      Snapshot.encodeCells (m.toList.map fun w => (w.toNat : Int)) =
        .ok ([1, 2] ++ List.replicate 65550 0)) ∧
    (([-1, 65541] : List Int).length ≤ 32768 ∧ ([7] : Bytes).length ≤ 1 ∧
      ∃ words : List Word, unpack ([255, 255, 5, 0] ++ [7]) = .ok words ∧
        (words.map fun w => (w.toNat : Int)) = [65535, 5]) := by
  obtain ⟨-, fitting, numbers⟩ := unpack_load_dump
  obtain ⟨words, m, unpacked, loaded, dumped, -⟩ := fitting [1, 2, 3] (by decide)
  have written : ([-1, 65541] : List Int).flatMap Word.twoBytes = [255, 255, 5, 0] := by decide
  have packed := numbers [-1, 65541] [7] (by decide) (by decide)
  rw [written] at packed
  exact ⟨⟨by decide, words, m, unpacked, loaded, dumped⟩, by decide, by decide, packed⟩

end Image

end WordMachine
