import WordMachine.File.Home
import WordMachine.Failure

/-!
# The debugger

What debugger commands work on: the machine with the rest of its current input line, whether a
machine is attached at all, whether a command gave up the instruction that waits for input, where
dumps and snapshots go if that is known, and the host.
-/

namespace WordMachine

structure Debugger where
  machine : Machine := {}
  /-- What the guest has not read yet of its current line. -/
  pending : List Char := []
  attached : Bool := true
  /-- Set by a command that gives up the waiting instruction, until somebody has looked. -/
  preempted : Bool := false
  dumpFile : Option Path := some (Path.ofString "memory.bin")
  snapshotFile : Option Path := some (Path.ofString "snapshot.bin")
  host : Host := {}

namespace Debugger

@[inline] def log (d : Debugger) (level : Level) (channel : Channel) (message : String) :
    Debugger :=
  { d with host := d.host.log level channel message }

def report (d : Debugger) (message : String) : Debugger :=
  { d with host := d.host.report (message ++ "\n") }

/-- A report of something that went wrong. -/
def reportError (d : Debugger) (message : String) : Debugger := d.report ("error: " ++ message)

def attach (d : Debugger) : Debugger :=
  { d with attached := true }.log .debug .debugger
    ("debugger attached to " ++ d.machine.describe)

def detach (d : Debugger) : Debugger := { d with attached := false }

/-- Records that the machine comes to a halt, unless it stands still already. -/
def logHalt (d : Debugger) : Debugger :=
  if d.machine.running then
    d.log .info .machine s!"halted at pc={d.machine.pc} after {d.machine.cycles} cycles"
  else d

def halt (d : Debugger) : Debugger :=
  let d := d.logHalt
  { d with machine := { d.machine with running := false } }

def loadImage (d : Debugger) (image : List Int) : Except LoadError Debugger :=
  (d.machine.loadImage image).map fun machine =>
    { d with machine }.log .debug .machine s!"program loaded: {image.length} words"

/-- Goes on from a snapshot, with nothing left of the current line. -/
def restore (d : Debugger) (s : Snapshot) : Except Snapshot.Error Debugger :=
  (d.machine.restored s).map fun machine =>
    { d with machine, pending := [] }.log .info .machine
      s!"state restored: pc={machine.pc} stack={machine.stack.length}"

/-- Sets where dumps and snapshots go; empty texts leave a path as it is. -/
def redirect (d : Debugger) (dump snapshot : Option String) (homes : Homes) :
    Debugger × Option Failure :=
  match expanded dump d.dumpFile with
  | .error e => (d, some (.file e))
  | .ok dumpFile =>
      match expanded snapshot d.snapshotFile with
      | .error e => ({ d with dumpFile }, some (.file e))
      | .ok snapshotFile => ({ d with dumpFile, snapshotFile }, none)
where
  expanded (text : Option String) (current : Option Path) : Except FileError (Option Path) :=
    match text with
    | none | some "" => .ok current
    | some text => ((Path.ofString text).expandHome homes).map some

end Debugger

end WordMachine
