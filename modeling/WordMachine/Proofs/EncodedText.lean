import WordMachine.Text.Utf8

/-!
# Encoded text

A byte string is decoded exactly when it spells characters one after the other, and then as those
characters. What is encoded is therefore decoded to itself, also behind other text.
-/

namespace WordMachine.Text.Utf8

/-- The bytes that spell a character. -/
inductive Spells : Char → Bytes → Prop where
  | one {a : UInt8} (first : a < 0x80) : Spells (Char.ofNat a.toNat) [a]
  | two {a b : UInt8} (above : ¬a < 0xC2) (below : a < 0xE0) (tail : isTail b = true) :
      Spells (Char.ofNat (a.toNat % 32 * 64 + low6 b)) [a, b]
  | three {a b c : UInt8} (above : ¬a < 0xE0) (below : a < 0xF0)
      (second : isSecondOfThree a b = true) (tail : isTail c = true) :
      Spells (Char.ofNat ((a.toNat % 16 * 64 + low6 b) * 64 + low6 c)) [a, b, c]
  | four {a b c d : UInt8} (above : ¬a < 0xF0) (below : a < 0xF5)
      (second : isSecondOfFour a b = true) (tail : isTail c = true) (tail' : isTail d = true) :
      Spells (Char.ofNat (((a.toNat % 8 * 64 + low6 b) * 64 + low6 c) * 64 + low6 d)) [a, b, c, d]

/-- The bytes that spell characters one after the other. -/
inductive Writes : List Char → Bytes → Prop where
  | nil : Writes [] []
  | cons {c : Char} {cs : List Char} {bs rest : Bytes} (spells : Spells c bs)
      (later : Writes cs rest) : Writes (c :: cs) (bs ++ rest)

variable {bs rest : Bytes} {cs ds : List Char}

theorem Writes.append (first : Writes cs bs) (later : Writes ds rest) :
    Writes (cs ++ ds) (bs ++ rest) := by
  induction first with
  | nil => exact later
  | cons spells _ ih =>
      rw [List.append_assoc]
      exact .cons spells ih

theorem scanOnto_of_spells {c : Char} (spells : Spells c bs) (rest : Bytes) (pos : Nat)
    (acc : List Char) :
    scanOnto (bs ++ rest) pos acc = scanOnto rest (pos + bs.length) (c :: acc) := by
  cases spells with
  | one first =>
      rw [List.singleton_append, scanOnto.eq_def]
      simp only [first, if_true, List.length_singleton]
  | @two a b above below tail =>
      have large : ¬a < 0x80 := by grind
      simp [scanOnto, large, above, below, tail]
  | @three a b c above below second tail =>
      have large : ¬a < 0x80 := by grind
      have large' : ¬a < 0xC2 := by grind
      simp [scanOnto, large, large', above, below, second, tail]
  | @four a b c d above below second tail tail' =>
      have large : ¬a < 0x80 := by grind
      have large' : ¬a < 0xC2 := by grind
      have large'' : ¬a < 0xE0 := by grind
      simp [scanOnto, large, large', large'', above, below, second, tail, tail']

theorem scanOnto_append (writes : Writes cs bs) (rest : Bytes) (pos : Nat) (acc : List Char) :
    scanOnto (bs ++ rest) pos acc = scanOnto rest (pos + bs.length) (cs.reverse ++ acc) := by
  induction writes generalizing pos acc with
  | nil => rfl
  | cons spells later ih =>
      rw [List.append_assoc, scanOnto_of_spells spells, ih]
      simp [Nat.add_assoc]

theorem scanOnto_of_writes (writes : Writes cs bs) (pos : Nat) (acc : List Char) :
    scanOnto bs pos acc = (acc.reverse ++ cs, .complete) := by
  have whole := scanOnto_append writes [] pos acc
  rw [List.append_nil] at whole
  simp [whole, scanOnto]

theorem writes_of_scanOnto {pos : Nat} {acc out : List Char}
    (read : scanOnto bs pos acc = (out, .complete)) :
    ∃ cs, out = acc.reverse ++ cs ∧ Writes cs bs := by
  fun_induction scanOnto bs pos acc with
  | case1 pos acc =>
      obtain ⟨rfl, -⟩ := Prod.mk.inj read
      exact ⟨[], (List.append_nil _).symm, .nil⟩
  | case2 a t pos acc first ih =>
      obtain ⟨cs, rfl, later⟩ := ih read
      exact ⟨_ :: cs, by simp, .cons (.one first) later⟩
  | case5 a pos acc _ above below b t tail ih =>
      obtain ⟨cs, rfl, later⟩ := ih read
      exact ⟨_ :: cs, by simp, .cons (.two above below tail) later⟩
  | case13 a pos acc _ _ above below b c t second tail ih =>
      obtain ⟨cs, rfl, later⟩ := ih read
      rw [Bool.not_not_eq] at second tail
      exact ⟨_ :: cs, by simp, .cons (.three above below second tail) later⟩
  | case23 a pos acc _ _ _ above below b c d t second tail tail' ih =>
      obtain ⟨cs, rfl, later⟩ := ih read
      rw [Bool.not_not_eq] at second tail tail'
      exact ⟨_ :: cs, by simp, .cons (.four above below second tail tail') later⟩
  -- all other ways through a byte string end at a fault
  | _ => cases congrArg Prod.snd read

/-- What is decoded is what the bytes write. -/
theorem decode_eq_ok_iff : decode bs = .ok cs ↔ Writes cs bs := by
  constructor
  · intro decoded
    unfold decode scan at decoded
    split at decoded
    · next out read =>
        obtain ⟨_, whole, writes⟩ := writes_of_scanOnto read
        obtain rfl : out = cs := Except.ok.inj decoded
        exact whole ▸ writes
    · cases decoded
    · cases decoded
  · intro writes
    simp [decode, scan, scanOnto_of_writes writes]

theorem decode_append (first : decode bs = .ok cs) (later : decode rest = .ok ds) :
    decode (bs ++ rest) = .ok (cs ++ ds) :=
  decode_eq_ok_iff.mpr ((decode_eq_ok_iff.mp first).append (decode_eq_ok_iff.mp later))

private theorem toNat_byte {n : Nat} (small : n < 256) : (UInt8.ofNat n).toNat = n := by
  rw [UInt8.toNat_ofNat']
  exact Nat.mod_eq_of_lt small

private theorem isTail_byte {n : Nat} (small : n < 64) :
    isTail (UInt8.ofNat (n + 128)) = true := by
  have low : 0x80 ≤ UInt8.ofNat (n + 128) := by
    rw [UInt8.le_iff_toNat_le, toNat_byte (by omega)]
    exact Nat.le_add_left 128 n
  have high : UInt8.ofNat (n + 128) ≤ 0xBF := by
    rw [UInt8.le_iff_toNat_le, toNat_byte (by omega)]
    exact Nat.add_le_add_right (Nat.le_of_lt_succ small) 128
  rw [isTail, decide_eq_true low, decide_eq_true high]
  rfl

private theorem isSecondOfThree_byte {m n : Nat} (lead : m < 16) (small : n < 64)
    (long : m = 0 → 32 ≤ n) (no_half : m = 13 → n < 32) :
    isSecondOfThree (UInt8.ofNat (m + 224)) (UInt8.ofNat (n + 128)) = true := by
  have first := toNat_byte (show m + 224 < 256 by omega)
  have second := toNat_byte (show n + 128 < 256 by omega)
  simp only [isSecondOfThree, isTail_byte small, Bool.and_eq_true, Bool.not_eq_true',
    Bool.and_eq_false_iff, true_and, beq_eq_false_iff_ne, ne_eq, decide_eq_false_iff_not,
    ← UInt8.toNat_inj, UInt8.lt_iff_toNat_lt, UInt8.le_iff_toNat_le, first, second]
  simp
  omega

private theorem isSecondOfFour_byte {m n : Nat} (lead : m < 5) (small : n < 64)
    (long : m = 0 → 16 ≤ n) (last : m = 4 → n < 16) :
    isSecondOfFour (UInt8.ofNat (m + 240)) (UInt8.ofNat (n + 128)) = true := by
  have first := toNat_byte (show m + 240 < 256 by omega)
  have second := toNat_byte (show n + 128 < 256 by omega)
  simp only [isSecondOfFour, isTail_byte small, Bool.and_eq_true, Bool.not_eq_true',
    Bool.and_eq_false_iff, true_and, beq_eq_false_iff_ne, ne_eq, decide_eq_false_iff_not,
    ← UInt8.toNat_inj, UInt8.lt_iff_toNat_lt, UInt8.le_iff_toNat_le, first, second]
  simp
  omega

/-- A character is spelled by the bytes that it is encoded in. -/
theorem spells_encodeChar (c : Char) : Spells c (String.utf8EncodeChar c) := by
  have whole : Char.ofNat c.val.toNat = c := Char.ofNat_toNat c
  have range : c.val.toNat < 0xD800 ∨ 0xDFFF < c.val.toNat ∧ c.val.toNat < 0x110000 := c.valid
  unfold String.utf8EncodeChar
  generalize c.val.toNat = v at whole range
  have tail (n : Nat) : isTail (UInt8.ofNat (n % 64 + 128)) = true :=
    isTail_byte (Nat.mod_lt n (by decide))
  have low (n : Nat) : low6 (UInt8.ofNat (n % 64 + 128)) = n % 64 := by
    rw [low6, toNat_byte (by omega)]
    omega
  have lt {n m : Nat} (small : m < 256) (below : n < m) : UInt8.ofNat n < UInt8.ofNat m :=
    (UInt8.ofNat_lt_iff_lt (Nat.lt_trans below small) small).mpr below
  have not_lt {n m : Nat} (small : n < 256) (above : m ≤ n) : ¬UInt8.ofNat n < UInt8.ofNat m := by
    rw [UInt8.ofNat_lt_iff_lt small (Nat.lt_of_le_of_lt above small)]
    exact Nat.not_lt.mpr above
  dsimp only
  split
  · have spelled := Spells.one (lt (n := v) (m := 0x80) (by decide) (by omega))
    rwa [toNat_byte (by omega), whole] at spelled
  · split
    · have spelled := Spells.two (not_lt (n := v / 64 % 32 + 192) (m := 0xC2) (by omega) (by omega))
        (lt (m := 0xE0) (by decide) (by omega)) (tail v)
      have value : (v / 64 % 32 + 192) % 32 * 64 + v % 64 = v := by omega
      rwa [toNat_byte (by omega), low, value, whole] at spelled
    · split
      · have second := isSecondOfThree_byte (m := v / 4096 % 16) (n := v / 64 % 64) (by omega)
          (by omega) (by omega) (by omega)
        have spelled := Spells.three (not_lt (m := 0xE0) (by omega) (by omega))
          (lt (m := 0xF0) (by decide) (by omega)) second (tail v)
        have value : ((v / 4096 % 16 + 224) % 16 * 64 + v / 64 % 64) * 64 + v % 64 = v := by omega
        rwa [toNat_byte (by omega), low, low, value, whole] at spelled
      · have second := isSecondOfFour_byte (m := v / 262144 % 8) (n := v / 4096 % 64) (by omega)
          (by omega) (by omega) (by omega)
        have spelled := Spells.four (not_lt (m := 0xF0) (by omega) (by omega))
          (lt (m := 0xF5) (by decide) (by omega)) second (tail (v / 64)) (tail v)
        have value : (((v / 262144 % 8 + 240) % 8 * 64 + v / 4096 % 64) * 64 + v / 64 % 64) * 64
            + v % 64 = v := by omega
        rwa [toNat_byte (by omega), low, low, low, value, whole] at spelled

private theorem toList_loop (bs : ByteArray) (i : Nat) (acc : Bytes) :
    ByteArray.toList.loop bs i acc = acc.reverse ++ bs.data.toList.drop i := by
  induction left : bs.size - i generalizing i acc with
  | zero =>
      have beyond : bs.data.toList.length ≤ i := Nat.le_of_sub_eq_zero left
      rw [ByteArray.toList.loop, if_neg (by omega), List.drop_eq_nil_of_le beyond,
        List.append_nil]
  | succ n ih =>
      have inside : i < bs.data.toList.length := by
        show i < bs.size
        omega
      have here : bs.get! i = bs.data.toList[i] := getElem!_pos bs.data i inside
      have unread : i < bs.size := inside
      rw [ByteArray.toList.loop, if_pos unread, ih (i + 1) _ (by omega),
        List.drop_eq_getElem_cons inside, here]
      simp

theorem encode_eq (s : String) : encode s = s.toList.flatMap String.utf8EncodeChar := by
  have bytes : encode s = s.toByteArray.data.toList := toList_loop s.toByteArray 0 []
  rw [bytes, ← String.utf8Encode_toList, List.utf8Encode, List.toList_data_toByteArray]

theorem encode_append (s t : String) : encode (s ++ t) = encode s ++ encode t := by
  rw [encode_eq, encode_eq, encode_eq, String.toList_append, List.flatMap_append]

theorem writes_encode (s : String) : Writes s.toList (encode s) := by
  rw [encode_eq]
  induction s.toList with
  | nil => exact .nil
  | cons c cs ih => exact .cons (spells_encodeChar c) ih

@[simp] theorem decode_encode (s : String) : decode (encode s) = .ok s.toList :=
  decode_eq_ok_iff.mpr (writes_encode s)

end WordMachine.Text.Utf8
