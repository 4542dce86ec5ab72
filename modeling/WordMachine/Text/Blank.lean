/-!
# Blanks

The blank characters, which separate the first word of a line from the rest and are dropped at
both ends of a trimmed text.
-/

namespace WordMachine.Text

/-- Whether a character is blank: tab to carriage return, the information separators, the space,
next line, and Unicode's other spaces and separators. -/
def isBlank (c : Char) : Bool :=
  let n := c.toNat
  (9 ≤ n && n ≤ 13) || (28 ≤ n && n ≤ 32) || n == 0x85 || n == 0xA0 || n == 0x1680 ||
    (0x2000 ≤ n && n ≤ 0x200A) || n == 0x2028 || n == 0x2029 || n == 0x202F || n == 0x205F ||
    n == 0x3000

/-- A list without what is to be dropped at both of its ends. -/
def strip {α : Type} (drop : α → Bool) (xs : List α) : List α :=
  ((xs.dropWhile drop).reverse.dropWhile drop).reverse

def trim (cs : List Char) : List Char := strip isBlank cs

/-- The characters up to the first blank, blanks in front left out. -/
def firstWord (cs : List Char) : List Char :=
  (cs.dropWhile isBlank).takeWhile (!isBlank ·)

@[simp] theorem trim_nil : trim [] = [] := rfl

@[simp] theorem firstWord_nil : firstWord [] = [] := rfl

end WordMachine.Text
