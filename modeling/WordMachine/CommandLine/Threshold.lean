import WordMachine.Failure

/-!
# Thresholds

How serious a record has to be to be shown, as it is asked for by name.
-/

namespace WordMachine.CommandLine

/-- A letter as level names are written: in capitals. Of the letters outside the basic ones, these
have capitals among them that a name can hold. -/
def capitals (c : Char) : List Char :=
  match c with
  | 'ı' => ['I']
  | 'ſ' => ['S']
  | 'ﬅ' | 'ﬆ' => ['S', 'T']
  | c => [c.toUpper]

def recordLayout : String := "%(levelname)s:%(name)s:%(message)s"

/-- The table of the styles that layouts are written in, each with its layout. -/
def layoutTable : String :=
  "\x7b'%': (<class 'logging.PercentStyle'>, '" ++ recordLayout
    ++ "'), '\x7b': (<class 'logging.StrFormatStyle'>, "
    ++ "'\x7blevelname\x7d:\x7bname\x7d:\x7bmessage\x7d'), "
    ++ "'$': (<class 'logging.StringTemplateStyle'>, "
    ++ "'$\x7blevelname\x7d:$\x7bname\x7d:$\x7bmessage\x7d')\x7d"

/-- The least rank of the records that are shown for a name. A name that stands for nothing asks
for warnings; the names of the layout and of the table of layouts ask for these, which are no
levels. -/
def leastRank (name : String) : Except Failure Nat :=
  match String.ofList (name.toList.flatMap capitals) with
  | "NOTSET" => .ok 0
  | "DEBUG" => .ok Level.debug.rank
  | "INFO" => .ok Level.info.rank
  | "ERROR" => .ok Level.error.rank
  | "CRITICAL" | "FATAL" => .ok Level.critical.rank
  | "BASIC_FORMAT" => .error (.unknownLevel recordLayout)
  | "_STYLES" => .error (.noLevel layoutTable)
  | _ => .ok Level.warning.rank

end WordMachine.CommandLine
