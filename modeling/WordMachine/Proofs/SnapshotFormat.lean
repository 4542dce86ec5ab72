import Mathlib.Tactic.Linarith
import WordMachine.Snapshot

/-!
# The snapshot format

The format is exact: a state that is written and read back is the state modulo 65536, a byte string
is read precisely when its length fits the depth in its header, and no snapshot has a second
writing.
-/

namespace WordMachine

namespace Word

/-- The number that bytes write, least significant first. -/
def littleEndian : Bytes → Nat
  | [] => 0
  | b :: bs => b.toNat + 256 * littleEndian bs

theorem toNat_ofBytes (low high : UInt8) :
    (ofBytes low high).toNat = littleEndian [low, high] := by
  have hl := low.toNat_lt
  have hh := high.toNat_lt
  simp only [ofBytes, littleEndian, UInt16.toNat_ofNat']
  omega

theorem length_unpack : ∀ bs : Bytes, (unpack bs).length = bs.length / 2
  | low :: high :: rest => by
      have ih := length_unpack rest
      simp only [unpack_cons_cons, List.length_cons, ih]
      omega
  | [_] => by simp
  | [] => rfl

/-- Only a byte left over at the end gets lost. -/
theorem pack_unpack : ∀ bs : Bytes, bs.length % 2 = 0 → pack (unpack bs) = bs
  | low :: high :: rest, h => by
      have ih := pack_unpack rest (by simp only [List.length_cons] at h; omega)
      rw [unpack_cons_cons, pack_cons, bytes_ofBytes, ih]
      rfl
  | [_], h => by simp at h
  | [], _ => rfl

theorem map_ofInt_toNat (ws : List Word) : (ws.map fun w => (w.toNat : Int)).map ofInt = ws := by
  simp only [List.map_map, Function.comp_def, ofInt_toNat, List.map_id']

theorem map_toNat_ofInt (vs : List Int) :
    (vs.map ofInt).map (fun w => (w.toNat : Int)) = vs.map (· % 65536) := by
  simp only [List.map_map, Function.comp_def, toNat_ofInt]

end Word

namespace Snapshot

/-- The depth that a byte string gives in its header. -/
def depthField (bs : Bytes) : Nat := Word.littleEndian ((bs.drop 2).take 4)

@[simp] theorem depthField_cons (p₀ p₁ d₀ d₁ d₂ d₃ : UInt8) (body : Bytes) :
    depthField (p₀ :: p₁ :: d₀ :: d₁ :: d₂ :: d₃ :: body) =
      Word.littleEndian [d₀, d₁, d₂, d₃] := rfl

theorem littleEndian_depthBytes {depth : Nat} (h : depth < 2 ^ 32) :
    Word.littleEndian (depthBytes depth) = depth := by
  have low := Word.toNat_ofInt depth
  have high := Word.toNat_ofInt (depth / 65536 : Nat)
  simp only [depthBytes, Word.bytes, List.cons_append, List.nil_append, Word.littleEndian,
    UInt8.toNat_ofNat']
  omega

theorem depthBytes_littleEndian (d₀ d₁ d₂ d₃ : UInt8) :
    depthBytes (Word.littleEndian [d₀, d₁, d₂, d₃]) = [d₀, d₁, d₂, d₃] := by
  have h₀ := d₀.toNat_lt
  have h₁ := d₁.toNat_lt
  have h₂ := d₂.toNat_lt
  have h₃ := d₃.toNat_lt
  have low := Word.toNat_ofInt (Word.littleEndian [d₀, d₁, d₂, d₃])
  have high := Word.toNat_ofInt (Word.littleEndian [d₀, d₁, d₂, d₃] / 65536 : Nat)
  simp only [depthBytes, Word.bytes, List.cons_append, List.nil_append, List.cons.injEq, and_true]
  simp only [Word.littleEndian] at low high ⊢
  refine ⟨?_, ?_, ?_, ?_⟩ <;> apply UInt8.toNat_inj.mp <;> rw [UInt8.toNat_ofNat'] <;> omega

theorem encode_eq {s : Snapshot} (h : s.memory.length = numCells) :
    s.encode = .ok ((Word.ofInt s.pc).bytes ++ depthBytes s.stack.length ++
      Word.pack ((s.stack ++ s.memory).map Word.ofInt)) := by
  simp only [encode, encodeCells, h, if_true, bind, Except.bind, pure, Except.pure,
    List.map_append, Word.pack, List.flatMap_append, List.append_assoc]

theorem decode_cons (p₀ p₁ d₀ d₁ d₂ d₃ : UInt8) (body : Bytes) :
    decode (p₀ :: p₁ :: d₀ :: d₁ :: d₂ :: d₃ :: body) =
      let depth := Word.littleEndian [d₀, d₁, d₂, d₃]
      let values := (Word.unpack body).map fun w => (w.toNat : Int)
      if body.length = 2 * depth + 2 * numCells then
        .ok { pc := Word.littleEndian [p₀, p₁], stack := values.take depth,
              memory := values.drop depth }
      else .error (.sizeMismatch depth (headerSize + body.length)) := by
  have depth : (Word.ofBytes d₀ d₁).toNat + 65536 * (Word.ofBytes d₂ d₃).toNat =
      Word.littleEndian [d₀, d₁, d₂, d₃] := by
    simp only [Word.toNat_ofBytes, Word.littleEndian]
    omega
  simp only [decode, depth]
  rw [Word.toNat_ofBytes]

theorem header_cases (bs : Bytes) :
    (∃ p₀ p₁ d₀ d₁ d₂ d₃ body, bs = p₀ :: p₁ :: d₀ :: d₁ :: d₂ :: d₃ :: body) ∨
      bs.length < headerSize := by
  rcases bs with _ | ⟨p₀, _ | ⟨p₁, _ | ⟨d₀, _ | ⟨d₁, _ | ⟨d₂, _ | ⟨d₃, body⟩⟩⟩⟩⟩⟩
  · exact .inr (by decide)
  · exact .inr (by simp [headerSize])
  · exact .inr (by simp [headerSize])
  · exact .inr (by simp [headerSize])
  · exact .inr (by simp [headerSize])
  · exact .inr (by simp [headerSize])
  · exact .inl ⟨p₀, p₁, d₀, d₁, d₂, d₃, body, rfl⟩

theorem decode_of_short {bs : Bytes} (h : bs.length < headerSize) :
    decode bs = .error .tooSmall := by
  rcases bs with _ | ⟨p₀, _ | ⟨p₁, _ | ⟨d₀, _ | ⟨d₁, _ | ⟨d₂, _ | ⟨d₃, body⟩⟩⟩⟩⟩⟩
  case cons.cons.cons.cons.cons.cons => simp only [List.length_cons, headerSize] at h; omega
  all_goals rfl

/-- A byte string is read precisely when its length is the one that its header asks for. -/
theorem exists_decode_iff (bs : Bytes) :
    (∃ s, decode bs = .ok s) ↔ headerSize ≤ bs.length ∧ bs.length = sizeOf (depthField bs) := by
  rcases header_cases bs with ⟨p₀, p₁, d₀, d₁, d₂, d₃, body, rfl⟩ | short
  · have fits : (body.length = 2 * Word.littleEndian [d₀, d₁, d₂, d₃] + 2 * numCells) ↔
        headerSize ≤ (p₀ :: p₁ :: d₀ :: d₁ :: d₂ :: d₃ :: body).length ∧
          (p₀ :: p₁ :: d₀ :: d₁ :: d₂ :: d₃ :: body).length =
            sizeOf (Word.littleEndian [d₀, d₁, d₂, d₃]) := by
      simp only [List.length_cons, headerSize, sizeOf]
      omega
    rw [decode_cons, depthField_cons, ← fits]
    dsimp only
    split
    · next h => exact ⟨fun _ => h, fun _ => ⟨_, rfl⟩⟩
    · next h => simp only [reduceCtorEq, exists_false, h]
  · rw [decode_of_short short]
    constructor
    · rintro ⟨s, h⟩
      cases h
    · omega

theorem decode_of_mismatch {bs : Bytes} (header : headerSize ≤ bs.length)
    (h : bs.length ≠ sizeOf (depthField bs)) :
    decode bs = .error (.sizeMismatch (depthField bs) bs.length) := by
  rcases header_cases bs with ⟨p₀, p₁, d₀, d₁, d₂, d₃, body, rfl⟩ | short
  · rw [decode_cons, depthField_cons]
    simp only [depthField_cons, List.length_cons, sizeOf, headerSize] at h ⊢
    rw [if_neg (by omega)]
    simp only [Except.error.injEq, Error.sizeMismatch.injEq, true_and]
    omega
  · omega

/-- Reading what was written gives the state modulo 65536. -/
theorem decode_encode {s : Snapshot} (cells : s.memory.length = numCells)
    (depth : s.stack.length < 2 ^ 32) :
    ∃ bs, s.encode = .ok bs ∧ decode bs = .ok (capture s.pc s.stack s.memory) := by
  refine ⟨_, encode_eq cells, ?_⟩
  obtain ⟨d₀, d₁, d₂, d₃, four⟩ : ∃ d₀ d₁ d₂ d₃, depthBytes s.stack.length = [d₀, d₁, d₂, d₃] :=
    ⟨_, _, _, _, rfl⟩
  have stored := littleEndian_depthBytes depth
  rw [four] at stored
  have pc : (Word.littleEndian [UInt8.ofNat (Word.ofInt s.pc).toNat,
      UInt8.ofNat ((Word.ofInt s.pc).toNat / 256)] : Int) = s.pc % 65536 := by
    rw [← Word.toNat_ofBytes, Word.ofBytes_bytes, Word.toNat_ofInt]
  rw [four, Word.bytes]
  simp only [List.cons_append, List.nil_append]
  rw [decode_cons]
  simp only [stored, pc, Word.length_pack, List.length_map, List.length_append, cells,
    Nat.mul_add, if_true, Word.unpack_pack, Word.map_toNat_ofInt, capture]
  simp only [List.map_append, Except.ok.injEq, mk.injEq, true_and]
  rw [List.take_left' (by simp), List.drop_left' (by simp)]
  exact ⟨rfl, rfl⟩

/-- Writing what was read gives the same bytes again. -/
theorem encode_decode {bs : Bytes} {s : Snapshot} (h : decode bs = .ok s) : s.encode = .ok bs := by
  rcases header_cases bs with ⟨p₀, p₁, d₀, d₁, d₂, d₃, body, rfl⟩ | short
  · rw [decode_cons] at h
    set depth := Word.littleEndian [d₀, d₁, d₂, d₃] with stored
    dsimp only at h
    split at h
    case isFalse => cases h
    next fits =>
      have units : (Word.unpack body).length = depth + numCells := by
        rw [Word.length_unpack]
        omega
      obtain rfl := Except.ok.inj h
      rw [encode_eq (by simp only [List.length_drop, List.length_map, units]; omega)]
      simp only [List.take_append_drop, Word.map_ofInt_toNat]
      rw [Word.pack_unpack body (by omega), List.length_take, List.length_map, units,
        Nat.min_eq_left (by omega), stored, depthBytes_littleEndian, ← Word.toNat_ofBytes,
        Word.ofInt_toNat, Word.bytes_ofBytes]
      rfl
  · rw [decode_of_short short] at h
    cases h

/-- The format is exact in both directions: states are read back modulo 65536, byte strings are
read precisely when their length fits their header and refused by name otherwise, and what is read
is written with the same bytes. -/
theorem snapshotFormat_exact :
    (∀ s : Snapshot, s.memory.length = 32776 → s.stack.length < 2 ^ 32 →
      ∃ bs, s.encode = .ok bs ∧ decode bs = .ok (capture s.pc s.stack s.memory)) ∧
    (∀ bs : Bytes,
      ((∃ s, decode bs = .ok s) ∨ decode bs = .error .tooSmall ∨
        decode bs = .error (.sizeMismatch (depthField bs) bs.length)) ∧
      ((∃ s, decode bs = .ok s) ↔
        6 ≤ bs.length ∧ bs.length = 6 + 2 * depthField bs + 65552)) ∧
    (∀ (bs : Bytes) (s : Snapshot), decode bs = .ok s → s.encode = .ok bs) := by
  refine ⟨?_, ?_, ?_⟩
  · intro s cells depth
    exact decode_encode cells depth
  · intro bs
    refine ⟨?_, exists_decode_iff bs⟩
    by_cases short : bs.length < headerSize
    · exact .inr (.inl (decode_of_short short))
    · have header : headerSize ≤ bs.length := Nat.not_lt.mp short
      by_cases fits : bs.length = sizeOf (depthField bs)
      · exact .inl ((exists_decode_iff bs).mpr ⟨header, fits⟩)
      · exact .inr (.inr (decode_of_mismatch header fits))
  · intro bs s h
    exact encode_decode h

end Snapshot

end WordMachine
