import WordMachine.Text.Blank
import WordMachine.Text.Digit

/-!
# Integers in decimal

An integer is read from the decimal digits of any script, an optional sign in front, single
underscores allowed between digits, and blanks around it. Numbers of more than 4300 digits,
leading zeros counted, are neither read nor written.
-/

namespace WordMachine.Text

/-- The most digits that a number may be written with. -/
def maxDigits : Nat := 4300

/-- The blanks that may stand around a number: all but the information separators. -/
def isNumberBlank (c : Char) : Bool := isBlank c && !(28 ≤ c.toNat && c.toNat ≤ 31)

/-- The values of the digits, single underscores between them left out. -/
def digitValues? : List Char → Option (List Nat)
  | [] => none
  | [c] => (decimalValue? c).map ([·])
  | c :: '_' :: cs => return (← decimalValue? c) :: (← digitValues? cs)
  | c :: cs => return (← decimalValue? c) :: (← digitValues? cs)

def ofDigits (ds : List Nat) : Nat := ds.foldl (fun n d => 10 * n + d) 0

/-- The number that a text without sign and blanks writes. -/
def readNat? (cs : List Char) : Option Nat := do
  let ds ← digitValues? cs
  if ds.length ≤ maxDigits then some (ofDigits ds) else none

def readInt? (cs : List Char) : Option Int :=
  match ((cs.dropWhile isNumberBlank).reverse.dropWhile isNumberBlank).reverse with
  | '-' :: ds => (readNat? ds).map fun n => -(n : Int)
  | '+' :: ds => (readNat? ds).map fun n => (n : Int)
  | ds => (readNat? ds).map fun n => (n : Int)

inductive WriteError where
  | tooManyDigits
  deriving DecidableEq, Repr

def WriteError.message : WriteError → String
  | .tooManyDigits =>
      s!"Exceeds the limit ({maxDigits} digits) for integer string conversion; "
        ++ "use sys.set_int_max_str_digits() to increase the limit"

/-- Whether a number has few enough digits to be written. -/
def isWritable (n : Int) : Bool := n.natAbs < Nat.pow 10 maxDigits

def writeInt (n : Int) : Except WriteError String :=
  if isWritable n then .ok (toString n) else .error .tooManyDigits

end WordMachine.Text
