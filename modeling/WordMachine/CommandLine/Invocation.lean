import WordMachine.CommandLine.Options
import WordMachine.CommandLine.Threshold
import WordMachine.Session

/-!
# Invocations

An invocation sets a session up from its options, lets the machine run and tells how that ended.
It ends with a status: 0 for a machine that halts, reaches its limit or finds its input closed, 1
after any other fault, 2 when the session cannot be set up, 130 when the operator interrupts. What
nobody handles ends it with a failure instead.
-/

namespace WordMachine.CommandLine

/-- What is typed or sent to a run: a stream, and the keys typed at a terminal if it is one, with
the editor that makes lines of them. A run that has no standard input at all is left out. -/
structure StandardInput where
  stream : TextStream
  keys : Option (List Char) := none
  editor : LineEditor := .plain

inductive Ending where
  | exit (status : Nat)
  | failure (failure : Failure)
  deriving DecidableEq, Repr

/-- How an invocation ended, with what it wrote and left. -/
structure Result where
  ending : Ending
  host : Host
  output : String := ""
  threshold : Nat := Level.warning.rank

def Result.errors (r : Result) (stamp : String) : String :=
  r.host.journal.shown r.threshold stamp

/-- A session that is set up, with the limit of its run. -/
structure Job where
  session : Session
  limit : Option Int := none
  threshold : Nat := Level.warning.rank

namespace Job

/-- The end of an invocation that is refused, which the operator is told. -/
def refuse (h : Host) (rank : Nat) (message : String) : Result :=
  { ending := .exit 2, host := h.report ("error: " ++ message ++ "\n"), threshold := rank }

/-- The end of an invocation by a failure that nobody handles. -/
def abandon (h : Host) (rank : Nat) (failure : Failure) : Result :=
  { ending := .failure failure, host := h, threshold := rank }

/-- The end of an invocation that cannot open a file. -/
def refuseFile (h : Host) (rank : Nat) : FileError → Result
  | .os e => refuse h rank e.message
  | e => abandon h rank (.file e)

def readProgram (o : Options) (h : Host) (rank : Nat) : Except Result (Host × List Word) :=
  match h.readImage o.program.toString false with
  | (h, _, .ok words) => .ok (h, words)
  | (h, _, .error e) => .error (refuse h rank s!"cannot load {o.program}: {e.message}")

def readThreshold (o : Options) (h : Host) : Except Result Nat :=
  match o.verbosity with
  | none => .error (abandon h Level.warning.rank (.lost .levelName))
  | some name => (leastRank name).mapError (abandon h Level.warning.rank)

/-- The trace, in a file that is empty so far or in the log. -/
def openTrace (o : Options) (h : Host) (rank : Nat) : Except Result (Host × Trace) :=
  match o.traceTo with
  | none | some "" => .ok (h, { mode := if o.trace then .log else .off })
  | some text =>
      match h.files.createFile text with
      | .ok (files, file) => .ok ({ h with files }, { mode := .file, place := some { file } })
      | .error e => .error (refuseFile h rank e)

def openScript (o : Options) (h : Host) (rank : Nat) : Except Result (Host × List Feed) :=
  match o.script with
  | none => .ok (h, [])
  | some path =>
      match h.files.openFile path with
      | .ok (files, file) => .ok ({ h with files }, [.stream (.ofFile file)])
      | .error e => .error (refuseFile h rank e)

/-- The console of a terminal, unless a plain stream is asked for. -/
def openPrimary (env : Environment) (input : StandardInput) (o : Options) (h : Host)
    (rank : Nat) : Except Result (Host × Feed) :=
  match input.keys, o.plainInput with
  | some keys, false =>
      let limit := History.capacity (some History.defaultLimit)
      match Console.openAt input.editor keys h o.history limit env.homes with
      | .ok (h, console) => .ok (h, .console console)
      | .error e => .error (abandon h rank e)
  | _, _ => .ok (h, .stream input.stream)

/-- The debugger after the snapshot to go on from is restored. -/
def goOnFrom (o : Options) (d : Debugger) (rank : Nat) : Except Result Debugger :=
  match o.resumeFrom with
  | none => .ok d
  | some path =>
      match d.host.readSnapshot path with
      | (h, .error (.snapshot e)) => .error (refuse h rank e.message)
      | (h, .error e) => .error (abandon h rank e)
      | (h, .ok s) =>
          match { d with host := h }.restore s with
          | .ok d => .ok d
          | .error e => .error (refuse h rank e.message)

def readLimit (o : Options) (h : Host) (rank : Nat) : Except Result (Option Int) :=
  match o.limit with
  | .unlimited => .ok none
  | .steps n => .ok (some n)
  | .lost => .error (abandon h rank (.lost .limit))

/-- The session that the options ask for. -/
def setUp (env : Environment) (input : StandardInput) (o : Options) (h : Host) :
    Except Result Job := do
  let rank ← readThreshold o h
  let (h, words) ← readProgram o h rank
  let (h, trace) ← openTrace o h rank
  let (h, script) ← openScript o h rank
  let (h, primary) ← openPrimary env input o h rank
  let debugger : Debugger := { dumpFile := o.dumpFile, snapshotFile := o.snapshotFile, host := h }
  let image := words.map fun w => (w.toNat : Int)
  let debugger ← (debugger.attach.loadImage image).mapError fun e => abandon h rank (.load e)
  let debugger ← goOnFrom o debugger rank
  let limit ← readLimit o debugger.host rank
  let feed := if script.isEmpty then primary else .chain (script ++ [primary])
  return {
    session := { debugger, feed, output := { encodes := true }, trace }
    limit, threshold := rank }

/-- The last line for the operator, and one before it where the limit cut the run off. -/
def summary (m : Machine) (limit : Option Int) : String :=
  let cutOff := match m.running, limit with
    | true, some limit => s!"[VM] Max steps {limit} reached; stopping\n"
    | _, _ => ""
  cutOff ++ s!"[VM] {m.status.title} after {m.cycles} cycles @ PC={m.pc}\n"

/-- The ending of a run, and the session after the operator was told. -/
def conclude (job : Job) (s : Session) (stop : Option Failure) : Ending × Session :=
  let tell (s : Session) (text : String) : Session :=
    s.mapDebugger fun d => { d with host := d.host.report text }
  match stop with
  | none => (.exit 0, tell s (summary s.machine job.limit))
  | some (.fault f) =>
      if f.kind = .inputClosed then
        let s := s.mapDebugger (·.log .info .commandLine s!"input closed at pc={s.machine.pc}")
        (.exit 0, tell s ("\n[VM] input closed\n" ++ summary s.machine none))
      else (.exit 1, tell s (s!"\n[VM] fault: {f.title}\n" ++ summary s.machine none))
  | some .interrupted => (.exit 130, tell s "\n")
  | some failure => (.failure failure, s)

/-- The result of a run that ended with the given session and the failure that stopped it, if one
did. -/
def result (job : Job) (s : Session) (stop : Option Failure) : Result :=
  let (ending, s) := job.conclude s.flushTrace stop
  { ending, host := s.debugger.host, output := s.output.text, threshold := job.threshold }

/-- The result of a run of at most `fuel` steps where the options set no limit; nothing if the
machine still runs then. -/
def run (job : Job) (fuel : Nat) : Option Result :=
  match job.limit with
  | some limit =>
      let (s, _, stop) := job.session.run limit.toNat
      some (job.result s stop)
  | none =>
      let (s, _, stop) := job.session.run fuel
      if stop.isNone && s.machine.running then none else some (job.result s stop)

end Job

/-- The result of a request other than a run. -/
def answer (h : Host) : Request → Except Result Options
  | .help => .error { ending := .exit 0, host := h, output := help }
  | .refused e => .error { ending := .exit 2, host := h.report (refusalText e) }
  | .run options => .ok options

/-- The result of an invocation whose machine, where the options set no limit, runs for at most
`fuel` steps. -/
def invoke (env : Environment) (input : StandardInput) (h : Host) (argv : List String)
    (fuel : Nat) : Option Result :=
  match answer h (Options.ofArguments env argv) with
  | .error result => some result
  | .ok options =>
      match Job.setUp env input options h with
      | .error result => some result
      | .ok job => job.run fuel

end WordMachine.CommandLine
