import Std.Time
import WordMachine.CommandLine.Invocation

/-!
# The program

The command line as a program: it takes over the files that a run may touch, lets the machine run,
shows what is written on the way, and writes back the files that changed. At a terminal the next
line is read when the machine asks for it and none is left.
-/

namespace WordMachine.CommandLine

def placeText (loc : Location) : String := "/" ++ "/".intercalate loc

/-- The tree with what stands on the disk at a location. -/
def adopt (t : FileTree) (loc : Location) : IO FileTree := do
  let place := (← IO.currentDir) / placeText loc
  if ← place.isDir then return t.insert loc .directory
  try return t.insert loc (.file (← IO.FS.readBinFile place).toList)
  catch _ => return t

/-- The tree with what stands on the disk along the names. -/
def adoptAlong (t : FileTree) (loc : Location) : List String → IO FileTree
  | [] => return t
  | name :: rest =>
      if name = ".." then adoptAlong t loc.dropLast rest
      else do
        let loc := loc ++ [name]
        let t ← if (t.find? loc).isSome then pure t else adopt t loc
        adoptAlong t loc rest

def adoptPath (t : FileTree) (p : Path) : IO FileTree :=
  adoptAlong t (if p.isAbsolute then [] else t.cwd) p.parts

/-- The paths that a run with the options may touch. -/
def touched (env : Environment) (o : Options) : List Path :=
  let written := o.dumpFile.toList ++ o.snapshotFile.toList
  [o.program] ++ o.resumeFrom.toList ++ o.script.toList ++ written ++
    written.filterMap (·.appendToName ".tmp") ++ (o.traceTo.map Path.ofString).toList ++
    (o.history.expandHome env.homes).toOption.toList

/-- The files that a run with the options may touch. -/
def takeOver (env : Environment) (o : Options) : IO FileTree := do
  let here := Path.ofString (← IO.currentDir).toString
  let start ← adoptAlong { cwd := here.parts } [] here.parts
  (touched env o).foldlM adoptPath start

/-- Writes to the disk what differs between the trees. -/
def writeBack (before after : FileTree) : IO Unit := do
  for (loc, node) in after.nodes.reverse do
    if before.find? loc ≠ some node then
      match node with
      | .directory => IO.FS.createDirAll (placeText loc)
      | .file content => IO.FS.writeBinFile (placeText loc) ⟨content.toArray⟩
  for (loc, _) in before.nodes do
    if (after.find? loc).isNone then IO.FS.removeFile (placeText loc)

def timeStamp : IO String := do
  return (← Std.Time.PlainDateTime.now).format "uuuu-MM-dd HH:mm:ss,SSS"

def showEntries (journal : Journal) (rank : Nat) : IO Unit := do
  let stamp ← timeStamp
  (← IO.getStderr).putStr (journal.shown rank stamp)

/-- Shows what the session wrote and said since it was last shown, but for the first `seen`
entries of its journal. -/
def showProgress (job : Job) (s : Session) (seen : Nat) : IO Session := do
  let out ← IO.getStdout
  out.putStr s.output.text
  out.flush
  let journal := s.debugger.host.journal
  showEntries (journal.extract seen journal.size) job.threshold
  let s := s.mapDebugger fun d => { d with host := { d.host with journal := #[] } }
  return { s with output := { s.output with written := #[] } }

/-- Shows the end of an invocation and gives its status. -/
def showResult (r : Result) : IO UInt32 := do
  let out ← IO.getStdout
  out.putStr r.output
  out.flush
  showEntries r.host.journal r.threshold
  match r.ending with
  | .exit status => return status.toUInt32
  | .failure failure =>
      (← IO.getStderr).putStrLn ("failure: " ++ failure.message)
      return 1

/-- The number of steps between two looks at the output. -/
def stretch : Nat := 65536

/-- What commands said before the console or the machine found the input closed. -/
def commandTalk (journal : Journal) : Journal :=
  journal.takeWhile fun
    | .record r => r.channel != .console && r.channel != .machine
    | .report _ => true

/-- Runs a job to its end. While the terminal listens, a stretch in which the input ran out is taken
back to the step that asked for more, and goes on from there with one more line. What commands did
in that step is shown at once: the step does the same again. -/
partial def drive (job : Job) (disk : FileTree) (s : Session) (seen : Nat) (left : Option Nat)
    (listening : Bool) : IO (FileTree × Result) := do
  let (after, count, stop) := s.run (min stretch (left.getD stretch))
  let left := left.map (· - count)
  let starved := match stop with
    | some (.fault f) => f.kind == .inputClosed
    | _ => false
  if starved && listening then
    let before := (s.run count).1
    let said := before.debugger.host.journal.size
    let talk := commandTalk (after.debugger.host.journal.extract said
      after.debugger.host.journal.size)
    let waiting ← showProgress job before seen
    showEntries (talk.extract (seen - said) talk.size) job.threshold
    let files := after.debugger.host.files
    writeBack disk files
    let line ← (← IO.getStdin).getLine
    let keys := if line.isEmpty then [LineEditor.endKey] else line.toList
    let fed := { waiting with feed := waiting.feed.typed keys }
    drive job files fed talk.size left (!line.isEmpty)
  else
    let shown ← showProgress job after seen
    if stop.isNone && shown.machine.running && left != some 0 then
      drive job disk shown 0 left listening
    else return (disk, job.result shown stop)

/-- All that the standard input still holds. -/
partial def readAll (input : IO.FS.Stream) (start : ByteArray) : IO Bytes := do
  let more ← input.read 65536
  if more.isEmpty then return start.toList else readAll input (start ++ more)

/-- The settings that the system passes on. Of all accounts, only that of the administrator is
known. -/
def environment : IO Environment := do
  return {
    homes := .minimal (Path.ofString ((← IO.getEnv "HOME").getD "/"))
    dumpFile := ← IO.getEnv "SYNVM_DUMP_PATH"
    snapshotFile := ← IO.getEnv "SYNVM_SNAPSHOT_PATH"
    verbosity := ← IO.getEnv "SYNVM_LOG" }

def perform (env : Environment) (o : Options) : IO UInt32 := do
  let files ← takeOver env o
  let stdin ← IO.getStdin
  let listening := (← stdin.isTty) && !o.plainInput
  let input : StandardInput ←
    if listening then pure { stream := .ofText [] .closes, keys := some [] }
    else pure { stream := .ofBytes (← readAll stdin .empty) .closes }
  let (disk, result) ← match Job.setUp env input o { files } with
    | .error result => pure (files, result)
    | .ok job => drive job files job.session 0 (job.limit.map Int.toNat) listening
  writeBack disk result.host.files
  showResult result

end WordMachine.CommandLine

open WordMachine.CommandLine in
def main (argv : List String) : IO UInt32 := do
  let env ← environment
  match answer {} (Options.ofArguments env argv) with
  | .error result => showResult result
  | .ok options => perform env options
