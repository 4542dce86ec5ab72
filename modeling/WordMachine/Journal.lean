import WordMachine.File.Operation

/-!
# The journal

What a run says beside the guest's own output, in order: records for the log, each with a level and
the part that speaks, and reports for the operator.
-/

namespace WordMachine

inductive Level where
  | debug
  | info
  | warning
  | error
  | critical
  deriving DecidableEq, Repr

def Level.rank : Level → Nat
  | .debug => 10
  | .info => 20
  | .warning => 30
  | .error => 40
  | .critical => 50

def Level.name : Level → String
  | .debug => "DEBUG"
  | .info => "INFO"
  | .warning => "WARNING"
  | .error => "ERROR"
  | .critical => "CRITICAL"

inductive Channel where
  | machine
  | image
  | snapshot
  | input
  | console
  | history
  | debugger
  | arguments
  | halting
  | poking
  | saving
  | puzzles
  | commandLine
  deriving DecidableEq, Repr

def Channel.name : Channel → String
  | .machine => "synvm.vm"
  | .image => "synvm.loader"
  | .snapshot => "synvm.snapshot"
  | .input => "synvm.debugger.input"
  | .console => "synvm.debugger.console"
  | .history => "synvm.debugger.history"
  | .debugger => "synvm.debugger.context"
  | .arguments => "synvm.debugger.commands"
  | .halting => "synvm.debugger.control"
  | .poking => "synvm.debugger.memory"
  | .saving => "synvm.debugger.snapshot"
  | .puzzles => "synvm.puzzles"
  | .commandLine => "synvm.cli"

structure Record where
  level : Level
  channel : Channel
  message : String
  deriving DecidableEq, Repr

/-- One thing said: a record, or a text for the operator. -/
inductive Entry where
  | record (record : Record)
  | report (text : String)
  deriving DecidableEq, Repr

/-- An entry as it is shown: a report as it is, a record behind a time stamp if it is of the given
rank or above. -/
def Entry.shown (rank : Nat) (stamp : String) : Entry → String
  | .report text => text
  | .record r =>
      if rank ≤ r.level.rank then s!"{stamp} {r.level.name} {r.channel.name}: {r.message}\n" else ""

/-- What was said so far, in order. -/
abbrev Journal := Array Entry

namespace Journal

def reports (j : Journal) : String :=
  j.foldl (fun text entry => match entry with | .report t => text ++ t | .record _ => text) ""

def records (j : Journal) (rank : Nat) : List Record :=
  j.toList.filterMap fun
    | .record r => if rank ≤ r.level.rank then some r else none
    | .report _ => none

/-- The journal as it is shown, with the records of a rank or above. -/
def shown (j : Journal) (rank : Nat) (stamp : String) : String :=
  j.foldl (fun text entry => text ++ entry.shown rank stamp) ""

end Journal

/-- What surrounds a machine: the files it can reach and the journal of the run. -/
structure Host where
  files : FileTree := {}
  journal : Journal := #[]

namespace Host

def log (h : Host) (level : Level) (channel : Channel) (message : String) : Host :=
  { h with journal := h.journal.push (.record ⟨level, channel, message⟩) }

/-- Tells the operator. -/
def report (h : Host) (text : String) : Host :=
  { h with journal := h.journal.push (.report text) }

@[simp] theorem log_files (h : Host) (level : Level) (channel : Channel) (message : String) :
    (h.log level channel message).files = h.files := rfl

@[simp] theorem report_files (h : Host) (text : String) : (h.report text).files = h.files := rfl

end Host

end WordMachine
