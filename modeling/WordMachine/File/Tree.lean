import WordMachine.Word
import WordMachine.File.Error

/-!
# File trees

The files and directories that a run can see, as a map from locations to nodes, with the files that
it holds open. A walk along a path meets the errors in the order of the names: what is missing or
no directory is noticed before the next name is looked at. There are no links, nothing is forbidden
and there is always room: operations are refused for missing or misplaced names and long ones only.
-/

namespace WordMachine

/-- A place in the tree: the names from the root down. -/
abbrev Location := List String

inductive Node where
  | file (content : Bytes)
  | directory
  deriving DecidableEq, Repr

/-- A file held open: what stands at a location or, once the file has lost its name, what it
holds. -/
inductive OpenFile where
  | named (loc : Location)
  | nameless (content : Bytes)
  deriving DecidableEq, Repr

/-- A map from locations to nodes, the directory that relative paths start from, and the files held
open, in the order in which they were opened. -/
structure FileTree where
  nodes : List (Location × Node) := []
  cwd : Location := []
  opened : List OpenFile := []
  deriving Inhabited

namespace FileTree

/-- What stands at a location; the root is a directory. -/
def find? (t : FileTree) (loc : Location) : Option Node :=
  if loc = [] then some .directory else t.nodes.lookup loc

def erase (t : FileTree) (loc : Location) : FileTree :=
  { t with nodes := t.nodes.filter fun entry => entry.1 != loc }

def insert (t : FileTree) (loc : Location) (node : Node) : FileTree :=
  { t with nodes := (loc, node) :: (t.erase loc).nodes }

/-- The longest name, in bytes. -/
def maxName : Nat := 255

/-- The longest path, in bytes, its end mark included. -/
def maxPath : Nat := 4096

/-- The location that the names lead to. Each name is looked up in a directory, which a dot stands
for itself; the last location need not hold anything. -/
def walk (t : FileTree) : Location → List String → Except Errno Location
  | loc, [] => .ok loc
  | loc, name :: rest =>
      match t.find? loc with
      | none => .error .noEntry
      | some (.file _) => .error .notDirectory
      | some .directory =>
          if name = "." then t.walk loc rest
          else if name = ".." then t.walk loc.dropLast rest
          else if maxName < name.utf8ByteSize then .error .nameTooLong
          else t.walk (loc ++ [name]) rest

def resolve (t : FileTree) (p : Path) : Except Errno Location :=
  if maxPath ≤ p.toString.utf8ByteSize then .error .nameTooLong
  else t.walk (if p.isAbsolute then [] else t.cwd) p.parts

/-- A refusal that names the paths asked about. -/
def refuse (errno : Errno) (paths : List Path) : FileError :=
  .os ⟨errno, paths.map Path.toString⟩

/-- The location of a path that an operation is asked to work on. -/
def locate (t : FileTree) (p : Path) : Except FileError Location :=
  if p.toString.toList.contains '\x00' then .error .nulByte
  else (t.resolve p).mapError (refuse · [p])

/-- What stands below the current directory, sorted, a slash after each directory. -/
def listing (t : FileTree) : List String :=
  let below := t.nodes.filterMap fun (loc, node) =>
    if t.cwd.isPrefixOf loc && t.cwd.length < loc.length then
      let text := "/".intercalate (loc.drop t.cwd.length)
      some (if node = .directory then text ++ "/" else text)
    else none
  below.mergeSort (fun a b => decide (a ≤ b))

end FileTree

end WordMachine
