import WordMachine.Text.Blank
import WordMachine.Text.Quoted

/-!
# Code points

Texts that no encoder has seen. Besides characters they may hold halves of surrogate pairs on their
own, as the bytes of a terminal do that are no text. An encoder takes characters only: it refuses a
text at the first halves in it and writes nothing of it.
-/

namespace WordMachine

/-- The unit is half of a surrogate pair. -/
def Word.Surrogate (u : Word) : Prop := 0xD800 ≤ u.toNat ∧ u.toNat ≤ 0xDFFF

instance : DecidablePred Word.Surrogate :=
  fun u => inferInstanceAs (Decidable (0xD800 ≤ u.toNat ∧ u.toNat ≤ 0xDFFF))

namespace Text

inductive CodePoint where
  | char (c : Char)
  | half (unit : Word) (surrogate : unit.Surrogate)
  deriving DecidableEq, Repr

def CodePoint.isBlank : CodePoint → Bool
  | .char c => Text.isBlank c
  | .half _ _ => false

/-- A text that no encoder has seen. -/
abbrev Raw := List CodePoint

/-- Why a text cannot be encoded: half of a surrogate pair at a position, and more of them right
behind it. -/
structure EncodeError where
  position : Nat
  unit : Word
  more : Nat := 0
  deriving DecidableEq, Repr

def EncodeError.message (e : EncodeError) : String :=
  let place :=
    if e.more = 0 then s!"character '{escapeCode e.unit.toNat}' in position {e.position}"
    else s!"characters in position {e.position}-{e.position + e.more}"
  "'utf-8' codec can't encode " ++ place ++ ": surrogates not allowed"

namespace Raw

def ofString (s : String) : Raw := s.toList.map .char

def trim (r : Raw) : Raw := strip CodePoint.isBlank r

/-- The number of halves of surrogate pairs that a text starts with. -/
def halves : Raw → Nat
  | .half _ _ :: rest => halves rest + 1
  | _ => 0

/-- The characters of a text whose first code point has the given position. -/
def charsFrom : Raw → Nat → Except EncodeError (List Char)
  | [], _ => .ok []
  | .char c :: rest, pos => (charsFrom rest (pos + 1)).map (c :: ·)
  | .half unit _ :: rest, pos => .error { position := pos, unit, more := halves rest }

def encode (r : Raw) : Except EncodeError Bytes :=
  (charsFrom r 0).map fun cs => Utf8.encode (String.ofList cs)

theorem ofString_inj {s t : String} : ofString s = ofString t ↔ s = t := by
  rw [ofString, ofString, List.map_inj_right fun c d same => CodePoint.char.inj same,
    String.toList_inj]

theorem ofString_eq_map_iff {s : String} {cs : List Char} :
    ofString s = cs.map .char ↔ s.toList = cs :=
  List.map_inj_right fun _ _ same => CodePoint.char.inj same

/-- A part of a text of characters is one. -/
theorem exists_string {r : Raw} {cs : List Char} (part : r ⊆ cs.map .char) :
    ∃ s, r = ofString s := by
  induction r with
  | nil => exact ⟨"", rfl⟩
  | cons p rest ih =>
      obtain ⟨here, later⟩ := List.cons_subset.mp part
      obtain ⟨c, -, rfl⟩ := List.mem_map.mp here
      obtain ⟨s, rfl⟩ := ih later
      exact ⟨String.ofList (c :: s.toList), by rw [ofString, ofString, String.toList_ofList]; rfl⟩

theorem trim_ofString (s : String) :
    trim (ofString s) = ofString (String.ofList (Text.trim s.toList)) := by
  have blank : CodePoint.isBlank ∘ CodePoint.char = Text.isBlank := rfl
  rw [trim, strip, ofString, ofString, String.toList_ofList, Text.trim, strip, List.dropWhile_map,
    blank, ← List.map_reverse, List.dropWhile_map, blank, List.map_reverse]

theorem charsFrom_map_char (cs : List Char) (pos : Nat) :
    charsFrom (cs.map .char) pos = .ok cs := by
  induction cs generalizing pos with
  | nil => rfl
  | cons c cs ih =>
      rw [List.map_cons, charsFrom, ih]
      rfl

theorem eq_map_char {r : Raw} {pos : Nat} {cs : List Char} (given : charsFrom r pos = .ok cs) :
    r = cs.map .char := by
  induction r generalizing pos cs with
  | nil => cases given; rfl
  | cons p rest ih =>
      cases p with
      | half unit surrogate => cases given
      | char c =>
          rw [charsFrom] at given
          cases later : charsFrom rest (pos + 1) with
          | error e =>
              rw [later] at given
              cases given
          | ok ds =>
              rw [later] at given
              cases given
              rw [ih later, List.map_cons]

@[simp] theorem encode_ofString (s : String) : encode (ofString s) = .ok (Utf8.encode s) := by
  rw [encode, ofString, charsFrom_map_char, Except.map, String.ofList_toList]

/-- The texts that can be encoded are those of characters. -/
theorem exists_of_encode {r : Raw} {content : Bytes} (encoded : encode r = .ok content) :
    ∃ s, r = ofString s ∧ content = Utf8.encode s := by
  unfold encode at encoded
  cases given : charsFrom r 0 with
  | error e =>
      rw [given] at encoded
      cases encoded
  | ok cs =>
      rw [given] at encoded
      cases encoded
      exact ⟨String.ofList cs, by rw [ofString, String.toList_ofList, eq_map_char given], rfl⟩

end Raw

end Text

end WordMachine
