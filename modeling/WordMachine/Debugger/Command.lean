import WordMachine.Arguments
import WordMachine.Debugger.Basic
import WordMachine.Debugger.Line
import WordMachine.Text.Integer

/-!
# Debugger commands

The five commands. A command reports what it did, or what went wrong without changing the machine;
halting and restoring also preempt the instruction that waits for input.
-/

namespace WordMachine

inductive Command where
  | halt
  | dump
  | save
  | load
  | set
  deriving DecidableEq, Repr

/-- What a command ends with: a status, zero for success, and whether the waiting instruction is
given up. -/
structure Outcome where
  status : Nat := 0
  preempts : Bool := false
  deriving DecidableEq, Repr

namespace Command

def all : List Command := [halt, dump, save, load, set]

def name : Command → String
  | halt => "!halt"
  | dump => "!dump"
  | save => "!save"
  | load => "!load"
  | set => "!set"

def description : Command → String
  | halt => "Stop the machine immediately"
  | dump => "Write raw memory to the dump file"
  | save => "Write a snapshot of pc, stack and memory"
  | load => "Restore the machine from the snapshot file"
  | set => "Overwrite one memory cell: !set <address> <value>"

/-- The command with exactly the given name. -/
def ofName? (text : String) : Option Command := all.find? fun c => c.name == text

/-- The value of a position that takes a number of sixteen bits. -/
def readUnit (name text : String) : Except Arguments.ArgumentError Nat :=
  let cs := text.toList
  if cs.isEmpty || !cs.all Text.isDigit then
    .error (.invalid name ("expected an unsigned decimal integer, got " ++ Text.quote text))
  else
    match Text.readNat? cs with
    | none => .error (.invalid name ("invalid _u16 value: " ++ Text.quote text))
    | some n =>
        if 65535 < n then .error (.invalid name s!"{n} does not fit in 16 bits") else .ok n

def setGrammar : Arguments.Grammar := { positions := ["address", "value"] }

/-- Numbers that were given, nothing for one that was lost. -/
def readUnits : List Arguments.Given → Except Arguments.ArgumentError (List (Option Nat))
  | [] => .ok []
  | .position name (some text) :: rest => do
      let n ← readUnit name text
      return some n :: (← readUnits rest)
  | .position _ none :: rest => return none :: (← readUnits rest)
  | .value _ _ :: rest | .flag _ :: rest => readUnits rest

/-- The address and the value that the arguments of `set` give. -/
def setArguments (argv : List String) :
    Except Arguments.ArgumentError (Option Nat × Option Nat) := do
  let parsed := setGrammar.parse argv
  let units ← readUnits parsed.given
  match ← parsed.outcome with
  | [] => return (units.head?.join, (units.drop 1).head?.join)
  | extras => throw (.unrecognized extras)

/-- Runs a command that takes no arguments; those given are ignored. -/
def ignoring (c : Command) (d : Debugger) (argv : List String) : Debugger :=
  if argv.isEmpty then d
  else d.log .debug .arguments (c.name ++ " ignoring arguments " ++ Text.quoteList argv)

def runHalt (d : Debugger) : Debugger × Outcome :=
  let d := d.halt.log .info .halting s!"halt requested at pc={d.machine.pc}"
  (d.report s!"[DBG] halted at pc={d.machine.pc} after {d.machine.cycles} cycles",
    { preempts := true })

def runDump (d : Debugger) : Debugger × Except Failure Outcome :=
  match d.dumpFile with
  | none => (d, .error (.lost .path))
  | some path =>
      let cells := d.machine.memory.toList.map fun w => (w.toNat : Int)
      match d.host.writeDump path cells with
      | (host, .ok ()) => ({ d with host }.report s!"[DBG] memory dumped to {path}", .ok {})
      | (host, .error (.snapshot e)) =>
          let d := { d with host }.log .warning .poking ("memory dump failed: " ++ e.message)
          (d.reportError ("dump failed: " ++ e.message), .ok { status := 2 })
      | (host, .error e) => ({ d with host }, .error e)

def runSave (d : Debugger) : Debugger × Except Failure Outcome :=
  match d.snapshotFile with
  | none => (d, .error (.lost .path))
  | some path =>
      match d.host.writeSnapshot path d.machine.snapshot with
      | (host, .ok ()) => ({ d with host }.report s!"[DBG] snapshot saved to {path}", .ok {})
      | (host, .error (.snapshot e)) =>
          let d := { d with host }.log .warning .saving ("snapshot save failed: " ++ e.message)
          (d.reportError ("save failed: " ++ e.message), .ok { status := 2 })
      | (host, .error e) => ({ d with host }, .error e)

/-- Goes on from a snapshot that was read from `path`. -/
def resume (d : Debugger) (path : Path) (s : Snapshot) : Debugger × Except Failure Outcome :=
  match d.restore s with
  | .ok d =>
      (d.report s!"[DBG] snapshot restored from {path} (pc={d.machine.pc})",
        .ok { preempts := true })
  | .error e => (d, .error (.snapshot e))

def runLoad (d : Debugger) : Debugger × Except Failure Outcome :=
  match d.snapshotFile with
  | none => (d, .error (.lost .path))
  | some path =>
      match d.host.readSnapshot path with
      | (host, .ok s) => resume { d with host } path s
      | (host, .error (.snapshot e)) =>
          let d := { d with host }.log .warning .saving ("snapshot load failed: " ++ e.message)
          (d.reportError ("load failed: " ++ e.message), .ok { status := 2 })
      | (host, .error e) => ({ d with host }, .error e)

def poke (d : Debugger) (cell : Cell) (value : Nat) : Debugger :=
  let previous := d.machine.memory.get cell
  let memory := d.machine.memory.set cell (UInt16.ofNat value)
  let d := { d with machine := { d.machine with memory } }
  let d := d.log .info .poking s!"mem[{cell}]: {previous} -> {value}"
  d.report s!"[DBG] mem[{cell}] = {value} (was {previous})"

def runSet (d : Debugger) (argv : List String) : Debugger × Except Failure Outcome :=
  match setArguments argv with
  | .error e =>
      (d.reportError ("!set: " ++ e.message ++ "\nusage: !set address value"),
        .ok { status := 1 })
  | .ok (address, value) =>
      let address := address.getD 0
      if h : address < numCells then
        if !d.attached then (d, .error .detached)
        else
          match value with
          | none => (d, .error (.lost .number))
          | some value => (poke d ⟨address, h⟩ value, .ok {})
      else
        (d.reportError s!"address {address} outside memory (0..{numCells - 1})",
          .ok { status := 1 })

/-- Does what a command asks for, with the words that follow its name. -/
def carryOut (c : Command) (d : Debugger) (argv : List String) :
    Debugger × Except Failure Outcome :=
  match c with
  | .set => runSet d argv
  | c =>
      let d := c.ignoring d argv
      if !d.attached then (d, .error .detached)
      else
        match c with
        | .halt => let (d, outcome) := runHalt d; (d, .ok outcome)
        | .dump => runDump d
        | .save => runSave d
        | _ => runLoad d

/-- Runs a command; one that preempts the waiting instruction leaves a mark. -/
def run (c : Command) (d : Debugger) (argv : List String) : Debugger × Except Failure Outcome :=
  match c.carryOut d argv with
  | (d, .ok outcome) => ({ d with preempted := d.preempted || outcome.preempts }, .ok outcome)
  | (d, .error e) => (d, .error e)

/-- Runs a command from its line. Nothing that goes wrong gets past the report of it. -/
def dispatch (c : Command) (d : Debugger) (line : String) : Debugger :=
  match commandArguments line with
  | .error e => d.reportError ("parse error: " ++ e.message)
  | .ok words =>
      match c.run d (words.drop 1) with
      | (d, .ok outcome) => d.log .debug .input s!"{c.name} -> {outcome.status}"
      | (d, .error e) =>
          (d.log .error .input "command failed").reportError
            (s!"command '{c.name}' failed: " ++ e.message)

end Command

/-- The names that commands are known by, each with a description. -/
structure Registry where
  entries : List (String × String)

/-- A name that a command has already. -/
structure DuplicateCommand where
  name : String
  deriving DecidableEq, Repr

def DuplicateCommand.message (e : DuplicateCommand) : String := "duplicate command " ++ e.name

namespace Registry

def standard : Registry := ⟨Command.all.map fun c => (c.name, c.description)⟩

def find? (r : Registry) (name : String) : Option String := r.entries.lookup name

/-- The registry with a name added at the end, unless it is taken. -/
def register (r : Registry) (name description : String) : Except DuplicateCommand Registry :=
  if (r.find? name).isSome then .error ⟨name⟩ else .ok ⟨r.entries ++ [(name, description)]⟩

end Registry

end WordMachine
