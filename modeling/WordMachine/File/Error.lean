import WordMachine.Text.Quoted
import WordMachine.File.Path

/-!
# Errors of the file system

What the operating system says when it refuses an operation, and the refusals that come before it
is asked: a path with a NUL in it, one that ends in no name and one that starts at the home
directory of nobody.
-/

namespace WordMachine

inductive Errno where
  | noEntry
  | inputOutput
  | busy
  | exists
  | notDirectory
  | isDirectory
  | nameTooLong
  deriving DecidableEq, Repr

def Errno.number : Errno → Nat
  | .noEntry => 2
  | .inputOutput => 5
  | .busy => 16
  | .exists => 17
  | .notDirectory => 20
  | .isDirectory => 21
  | .nameTooLong => 36

def Errno.text : Errno → String
  | .noEntry => "No such file or directory"
  | .inputOutput => "Input/output error"
  | .busy => "Device or resource busy"
  | .exists => "File exists"
  | .notDirectory => "Not a directory"
  | .isDirectory => "Is a directory"
  | .nameTooLong => "File name too long"

/-- A refusal of the operating system, with the paths it was asked about. -/
structure Refusal where
  errno : Errno
  paths : List String := []
  deriving DecidableEq, Repr

def Refusal.message (e : Refusal) : String :=
  let cause := s!"[Errno {e.errno.number}] {e.errno.text}"
  if e.paths.isEmpty then cause
  else cause ++ ": " ++ " -> ".intercalate (e.paths.map Text.quote)

/-- Why an operation on a path fails. -/
inductive FileError where
  | os (error : Refusal)
  | nulByte
  | noName (path : Path)
  /-- The path starts at the home directory of somebody unknown. -/
  | unknownHome
  deriving DecidableEq, Repr

def FileError.message : FileError → String
  | .os error => error.message
  | .nulByte => "embedded null byte"
  | .noName path => "PosixPath(" ++ Text.quote path.toString ++ ") has an empty name"
  | .unknownHome => "Could not determine home directory."

end WordMachine
