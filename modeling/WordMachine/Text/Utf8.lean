import WordMachine.Word

/-!
# UTF-8

Strict decoding, which says of a byte string that is no text where it goes wrong: at a byte that
cannot start a character, at a byte that cannot continue one, or at an end inside a character.
-/

namespace WordMachine.Text.Utf8

/-- What is wrong with a byte string. -/
inductive Reason where
  | startByte
  | continuation
  | truncated
  deriving DecidableEq, Repr

/-- A fault in a byte string: the bytes that form no character and the position of the first. -/
structure Failure where
  reason : Reason
  position : Nat
  culprits : Bytes
  deriving DecidableEq, Repr

def Reason.message : Reason → String
  | .startByte => "invalid start byte"
  | .continuation => "invalid continuation byte"
  | .truncated => "unexpected end of data"

def hexDigit (n : Nat) : Char := "0123456789abcdef".toList.getD n '?'

def hexByte (b : UInt8) : String :=
  String.ofList [hexDigit (b.toNat / 16), hexDigit (b.toNat % 16)]

def Failure.message (f : Failure) : String :=
  let place := match f.culprits with
    | [b] => s!"byte 0x" ++ hexByte b ++ s!" in position {f.position}"
    | bs => s!"bytes in position {f.position}-{f.position + bs.length - 1}"
  "'utf-8' codec can't decode " ++ place ++ ": " ++ f.reason.message

/-- How a byte string ends: with a whole character, at a fault, or inside a character that more
bytes might have completed. -/
inductive Ending where
  | complete
  | invalid (failure : Failure)
  | unfinished (failure : Failure)
  deriving DecidableEq, Repr

/-- Where the bytes that form no character start, in a byte string that stops at `stop`. -/
def Ending.offset (e : Ending) (stop : Nat) : Nat :=
  match e with
  | .complete => stop
  | .invalid failure | .unfinished failure => failure.position

/-- Whether a byte continues a character. -/
def isTail (b : UInt8) : Bool := 0x80 ≤ b && b ≤ 0xBF

/-- Whether `b` may stand second in a character of three bytes that starts with `a`. -/
def isSecondOfThree (a b : UInt8) : Bool :=
  isTail b && !(a == 0xE0 && b < 0xA0) && !(a == 0xED && 0xA0 ≤ b)

/-- Whether `b` may stand second in a character of four bytes that starts with `a`. -/
def isSecondOfFour (a b : UInt8) : Bool :=
  isTail b && !(a == 0xF0 && b < 0x90) && !(a == 0xF4 && 0x90 ≤ b)

/-- What a byte that continues a character adds to it. -/
def low6 (b : UInt8) : Nat := b.toNat % 64

/-- The characters from a position on, after those in `acc`, which is in reverse. -/
def scanOnto : Bytes → Nat → List Char → List Char × Ending
  | [], _, acc => (acc.reverse, .complete)
  | a :: t, pos, acc =>
      let invalid (reason : Reason) (bs : Bytes) := (acc.reverse, Ending.invalid ⟨reason, pos, bs⟩)
      let unfinished (reason : Reason) (bs : Bytes) :=
        (acc.reverse, Ending.unfinished ⟨reason, pos, bs⟩)
      if a < 0x80 then scanOnto t (pos + 1) (Char.ofNat a.toNat :: acc)
      else if a < 0xC2 then invalid .startByte [a]
      else if a < 0xE0 then
        match t with
        | [] => unfinished .truncated [a]
        | b :: t =>
            if isTail b then
              scanOnto t (pos + 2) (Char.ofNat (a.toNat % 32 * 64 + low6 b) :: acc)
            else invalid .continuation [a]
      else if a < 0xF0 then
        match t with
        | [] => unfinished .truncated [a]
        | [b] =>
            if isSecondOfThree a b then unfinished .truncated [a, b]
            else if a == 0xED && isTail b then unfinished .continuation [a]
            else invalid .continuation [a]
        | b :: c :: t =>
            if !isSecondOfThree a b then invalid .continuation [a]
            else if !isTail c then invalid .continuation [a, b]
            else
              scanOnto t (pos + 3)
                (Char.ofNat ((a.toNat % 16 * 64 + low6 b) * 64 + low6 c) :: acc)
      else if a < 0xF5 then
        match t with
        | [] => unfinished .truncated [a]
        | [b] =>
            if isSecondOfFour a b then unfinished .truncated [a, b]
            else invalid .continuation [a]
        | [b, c] =>
            if !isSecondOfFour a b then invalid .continuation [a]
            else if !isTail c then invalid .continuation [a, b]
            else unfinished .truncated [a, b, c]
        | b :: c :: d :: t =>
            if !isSecondOfFour a b then invalid .continuation [a]
            else if !isTail c then invalid .continuation [a, b]
            else if !isTail d then invalid .continuation [a, b, c]
            else
              scanOnto t (pos + 4)
                (Char.ofNat (((a.toNat % 8 * 64 + low6 b) * 64 + low6 c) * 64 + low6 d) :: acc)
      else invalid .startByte [a]

/-- No more characters come out than bytes went in before the first fault, which lies inside. -/
theorem offset_scanOnto {bs : Bytes} {pos stop : Nat} {acc : List Char}
    (h : pos + bs.length = stop) :
    (scanOnto bs pos acc).1.length + pos ≤ acc.length + (scanOnto bs pos acc).2.offset stop ∧
      (scanOnto bs pos acc).2.offset stop ≤ stop := by
  fun_induction scanOnto bs pos acc <;> grind [Ending.offset]

def scan (bs : Bytes) : List Char × Ending := scanOnto bs 0 []

def decode (bs : Bytes) : Except Failure (List Char) :=
  match scan bs with
  | (cs, .complete) => .ok cs
  | (_, .invalid failure) => .error failure
  | (_, .unfinished failure) => .error failure

def encode (s : String) : Bytes := s.toUTF8.toList

theorem length_scan_le (bs : Bytes) :
    (scan bs).1.length ≤ (scan bs).2.offset bs.length := by
  simpa [scan] using (@offset_scanOnto bs 0 bs.length [] (Nat.zero_add _)).1

theorem offset_scan_le (bs : Bytes) : (scan bs).2.offset bs.length ≤ bs.length :=
  (offset_scanOnto (Nat.zero_add bs.length)).2

@[simp] theorem scan_nil : scan [] = ([], .complete) := rfl

@[simp] theorem decode_nil : decode [] = .ok [] := rfl

end WordMachine.Text.Utf8
