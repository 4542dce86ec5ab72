import WordMachine.Text.Printable
import WordMachine.Text.Utf8

/-!
# Quoted texts

A text between quotes, as messages show it: apostrophes unless the text holds an apostrophe and no
double quote, a backslash before the quote and before itself, and escapes for what cannot be shown.
-/

namespace WordMachine.Text

/-- A number in hexadecimal, filled up with zeros. -/
def hexOfWidth (width n : Nat) : String :=
  let digits := Nat.toDigits 16 n
  String.ofList (List.replicate (width - digits.length) '0' ++ digits)

/-- A code point that is not shown as it is: two, four or eight hexadecimal digits. -/
def escapeCode (n : Nat) : String :=
  if n < 0x100 then "\\x" ++ hexOfWidth 2 n
  else if n < 0x10000 then "\\u" ++ hexOfWidth 4 n
  else "\\U" ++ hexOfWidth 8 n

/-- A character inside a text between the given quotes. -/
def escapeChar (mark c : Char) : String :=
  if c = mark || c = '\\' then String.ofList ['\\', c]
  else if c = '\t' then "\\t"
  else if c = '\n' then "\\n"
  else if c = '\r' then "\\r"
  else if isPrintable c then String.singleton c
  else escapeCode c.toNat

/-- The quotes that a text is put between. -/
def quoteMark (s : String) : Char :=
  if s.toList.contains '\'' && !s.toList.contains '"' then '"' else '\''

def quote (s : String) : String :=
  let mark := String.singleton (quoteMark s)
  mark ++ String.join (s.toList.map (escapeChar (quoteMark s))) ++ mark

def quoteList (texts : List String) : String := "[" ++ ", ".intercalate (texts.map quote) ++ "]"

end WordMachine.Text
