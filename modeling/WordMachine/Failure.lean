import WordMachine.Image
import WordMachine.Snapshot

/-!
# Failures

All the ways in which an operation on a machine, its files or its input can end without a result.
-/

namespace WordMachine

/-- What a value that was lost on an argument list was for. -/
inductive Loss where
  | number
  | path
  | limit
  | levelName
  deriving DecidableEq, Repr

def Loss.message : Loss → String
  | .number => "int() argument must be a string, a bytes-like object or a real number, not 'list'"
  | .path => "expected str, bytes or os.PathLike object, not list"
  | .limit => "'>=' not supported between instances of 'int' and 'list'"
  | .levelName => "'list' object has no attribute 'upper'"

inductive Failure where
  | fault (fault : Fault)
  | snapshot (error : Snapshot.Error)
  | file (error : FileError)
  | image (error : ImageError)
  | load (error : LoadError)
  /-- A command is given while no machine is attached. -/
  | detached
  /-- A value is needed that was lost. -/
  | lost (what : Loss)
  /-- The operator interrupts the run. -/
  | interrupted
  /-- The output takes encoded text only, and the unit is half of a surrogate pair. -/
  | unencodable (unit : Word)
  /-- What is asked for as the level of the log is none. -/
  | unknownLevel (name : String)
  /-- What is asked for as the level of the log is not even a name of one. -/
  | noLevel (shown : String)
  deriving DecidableEq, Repr

def Failure.message : Failure → String
  | .fault f => f.message
  | .snapshot e => e.message
  | .file e => e.message
  | .image e => e.message
  | .load e => e.message
  | .detached => "debugger is not attached to a machine"
  | .lost what => what.message
  | .interrupted => ""
  | .unencodable unit =>
      "'utf-8' codec can't encode character '" ++ Text.escapeCode unit.toNat
        ++ "' in position 0: surrogates not allowed"
  | .unknownLevel name => "Unknown level: " ++ Text.quote name
  | .noLevel shown => "Level not an integer or a valid string: " ++ shown

namespace Host

/-- Replaces the file at `path`; a refusal is an error of snapshots. -/
def replace (h : Host) (path : Path) (content : Bytes) : Host × Except Failure Unit :=
  let (files, outcome) := h.files.replaceFile path content
  ({ h with files }, outcome.mapError fun
    | .refused error => .snapshot (.unwritable path error)
    | .unhandled error => .file error)

def writeSnapshot (h : Host) (path : Path) (s : Snapshot) : Host × Except Failure Unit :=
  match s.encode with
  | .error e => (h, .error (.snapshot e))
  | .ok content =>
      match h.replace path content with
      | (h, .error e) => (h, .error e)
      | (h, .ok ()) =>
          (h.log .info .snapshot
            s!"snapshot written to {path} (pc={s.pc}, stack={s.stack.length})", .ok ())

def writeDump (h : Host) (path : Path) (cells : List Int) : Host × Except Failure Unit :=
  match Snapshot.encodeCells cells with
  | .error e => (h, .error (.snapshot e))
  | .ok content =>
      match h.replace path content with
      | (h, .error e) => (h, .error e)
      | (h, .ok ()) => (h.log .info .snapshot s!"memory dump written to {path}", .ok ())

def readSnapshot (h : Host) (path : Path) : Host × Except Failure Snapshot :=
  match h.files.readFile path with
  | .error (.os e) => (h, .error (.snapshot (.unreadable path e)))
  | .error e => (h, .error (.file e))
  | .ok content =>
      match Snapshot.decode content with
      | .error e => (h, .error (.snapshot e))
      | .ok s =>
          (h.log .info .snapshot
            s!"snapshot read from {path} (pc={s.pc}, stack={s.stack.length})", .ok s)

end Host

end WordMachine
