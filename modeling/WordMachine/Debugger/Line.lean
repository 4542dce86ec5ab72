import WordMachine.Text.Blank
import WordMachine.Text.ShellWords

/-!
# Command lines

A line of input is a command when its first word starts with an exclamation mark and names one.
-/

namespace WordMachine

/-- The first word of a line that may be a command, empty for any other line. -/
def commandWord (line : String) : String :=
  match Text.firstWord line.toList with
  | '!' :: rest => String.ofList ('!' :: rest)
  | _ => ""

/-- The words of a command line, blanks at both ends left out. -/
def commandArguments (line : String) : Except Text.WordError (List String) :=
  Text.shellWords (Text.trim line.toList)

end WordMachine
