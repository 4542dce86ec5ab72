import WordMachine.Arguments
import WordMachine.File.Home
import WordMachine.Text.Integer

/-!
# Options

What the command line is asked for: a program image, the files of the run and how it goes. Paths
and the level of the log have defaults, some of which come from the environment. A value that was
lost takes the place of the default; most of what it was for can then not be done.
-/

namespace WordMachine.CommandLine

open Arguments (ArgumentError Given Switch)

/-- What surrounds a run: the home directories, of which the operator's has to be known since the
history is kept there by default, and the variables that other defaults come from. -/
structure Environment where
  homes : Homes
  dumpFile : Option String := none
  snapshotFile : Option String := none
  verbosity : Option String := none

/-- How many steps a run may take. -/
inductive Limit where
  | unlimited
  | steps (n : Int)
  | lost
  deriving DecidableEq, Repr

structure Options where
  program : Path := {}
  dumpFile : Option Path
  snapshotFile : Option Path
  /-- A snapshot to go on from. -/
  resumeFrom : Option Path := none
  /-- A file whose lines come before the standard input. -/
  script : Option Path := none
  limit : Limit := .unlimited
  trace : Bool := false
  traceTo : Option String := none
  history : Path
  plainInput : Bool := false
  verbosity : Option String
  deriving DecidableEq, Repr

/-- The switches, in the order of the usage, and the one position. -/
def grammar : Arguments.Grammar where
  switches := [
    { names := ["-h", "--help"] },
    { names := ["--dump-path"], takesValue := true },
    { names := ["--snapshot-path"], takesValue := true },
    { names := ["--load-snapshot"], takesValue := true },
    { names := ["--script"], takesValue := true },
    { names := ["--max-steps"], takesValue := true },
    { names := ["--trace"] },
    { names := ["--trace-file"], takesValue := true },
    { names := ["--history"], takesValue := true },
    { names := ["--no-console"] },
    { names := ["--log-level"], takesValue := true }]
  positions := ["program"]

def usage : String := "\n".intercalate [
  "usage: synvm [-h] [--dump-path DUMP_PATH] [--snapshot-path SNAPSHOT_PATH]",
  "             [--load-snapshot LOAD_SNAPSHOT] [--script SCRIPT]",
  "             [--max-steps MAX_STEPS] [--trace] [--trace-file TRACE_FILE]",
  "             [--history HISTORY] [--no-console] [--log-level LOG_LEVEL]",
  "             program",
  ""]

def help : String := usage ++ "\n".intercalate [
  "",
  "synvm virtual machine with input-stream debugger",
  "",
  "positional arguments:",
  "  program               program image (16-bit little-endian words)",
  "",
  "options:",
  "  -h, --help            show this help message and exit",
  "  --dump-path DUMP_PATH",
  "                        file written by !dump (default memory.bin)",
  "  --snapshot-path SNAPSHOT_PATH",
  "                        file used by !save and !load (default snapshot.bin)",
  "  --load-snapshot LOAD_SNAPSHOT",
  "                        restore this snapshot before running",
  "  --script SCRIPT       feed lines from this file before reading the console",
  "  --max-steps MAX_STEPS",
  "                        safety cap on executed steps",
  "  --trace               log executed instructions",
  "  --trace-file TRACE_FILE",
  "                        write trace output to a file",
  "  --history HISTORY     path to console history file",
  "  --no-console          read plain stdin even on a terminal",
  "  --log-level LOG_LEVEL",
  "                        logging level (default WARNING)",
  ""]

/-- What an argument list asks for. -/
inductive Request where
  | help
  | refused (error : ArgumentError)
  | run (options : Options)
  deriving DecidableEq, Repr

namespace Options

/-- The options of an argument list that gives none. -/
def standard (env : Environment) : Options where
  dumpFile := some (Path.ofString (env.dumpFile.getD "memory.bin"))
  snapshotFile := some (Path.ofString (env.snapshotFile.getD "snapshot.bin"))
  history := { env.homes.own with parts := env.homes.own.parts ++ [".synvm-history"] }
  verbosity := some (env.verbosity.getD "WARNING")

/-- What is written for a value that was lost: a list without an element. -/
def lostText : String := "[]"

def readLimit (title : String) : Option String → Except ArgumentError Limit
  | none => .ok .lost
  | some text =>
      match Text.readInt? text.toList with
      | some n => .ok (.steps n)
      | none => .error (.invalid title ("invalid int value: " ++ Text.quote text))

/-- The options with a switch and its value taken into account. -/
def take (o : Options) (title : String) (value : Option String) :
    Except ArgumentError Options :=
  let path := value.map Path.ofString
  match title with
  | "--dump-path" => .ok { o with dumpFile := path }
  | "--snapshot-path" => .ok { o with snapshotFile := path }
  | "--load-snapshot" => .ok { o with resumeFrom := path }
  | "--script" => .ok { o with script := path }
  | "--max-steps" => (readLimit title value).map fun limit => { o with limit }
  | "--trace-file" => .ok { o with traceTo := value }
  | "--history" => .ok { o with history := Path.ofString (value.getD lostText) }
  | "--log-level" => .ok { o with verbosity := value }
  | _ => .ok o

/-- The options with a switch that has no value taken into account. -/
def turnOn (o : Options) (title : String) : Options :=
  match title with
  | "--trace" => { o with trace := true }
  | "--no-console" => { o with plainInput := true }
  | _ => o

/-- The request that the things given make, with `outcome` telling how the list ends. -/
def request (outcome : Except ArgumentError (List String)) : List Given → Options → Request
  | [], o =>
      match outcome with
      | .ok [] => .run o
      | .ok extras => .refused (.unrecognized extras)
      | .error e => .refused e
  | .position _ value :: rest, o =>
      request outcome rest { o with program := Path.ofString (value.getD "") }
  | .flag s :: rest, o =>
      if s.title = "-h/--help" then .help else request outcome rest (o.turnOn s.title)
  | .value s value :: rest, o =>
      match o.take s.title value with
      | .ok o => request outcome rest o
      | .error e => .refused e

/-- The request that an argument list makes. -/
def ofArguments (env : Environment) (argv : List String) : Request :=
  let parsed := grammar.parse argv
  request parsed.outcome parsed.given (standard env)

end Options

def refusalText (error : ArgumentError) : String :=
  usage ++ "synvm: error: " ++ error.message ++ "\n"

end WordMachine.CommandLine
