import WordMachine.File.Handle

/-!
# Operations on files

What the operating system does with the paths it is given: files are read, written, removed and
moved, and directories made. A file that is to be replaced as a whole is first written beside its
place and then moved there.
-/

namespace WordMachine.FileTree

def readFile (t : FileTree) (p : Path) : Except FileError Bytes := do
  match t.find? (← t.locate p) with
  | some (.file content) => .ok content
  | some .directory => .error (refuse .isDirectory [p])
  | none => .error (refuse .noEntry [p])

/-- The tree with the file at `p` changed by `f`, which is given nothing if there is no file. -/
def updateFile (t : FileTree) (p : Path) (f : Bytes → Bytes) : Except FileError FileTree := do
  let loc ← t.locate p
  match t.find? loc with
  | some (.file content) => .ok (t.insert loc (.file (f content)))
  | some .directory => .error (refuse .isDirectory [p])
  | none => .ok (t.insert loc (.file (f [])))

def writeFile (t : FileTree) (p : Path) (content : Bytes) : Except FileError FileTree :=
  t.updateFile p fun _ => content

def openFile (t : FileTree) (p : Path) : Except FileError (FileTree × Handle) := do
  let loc ← t.locate p
  match t.find? loc with
  | some (.file _) => .ok (t.hold loc)
  | some .directory => .error (refuse .isDirectory [p])
  | none => .error (refuse .noEntry [p])

/-- The tree with an empty file at the end of a path, held open. The path is taken as it is
written: a dot in it asks for a directory, and with a slash at its end it is refused as one before
its last name is looked at. -/
def createFile (t : FileTree) (text : String) : Except FileError (FileTree × Handle) := do
  let refused errno := FileError.os ⟨errno, [text]⟩
  if text.contains '\x00' then throw .nulByte
  if text = "" then throw (refused .noEntry)
  if maxPath ≤ text.utf8ByteSize then throw (refused .nameTooLong)
  let start := if text.startsWith "/" then [] else t.cwd
  let names := (Path.components text).filter (· != "")
  let names := if text.endsWith "/" then names.dropLast ++ ["."] else names
  let loc ← (t.walk start names).mapError refused
  if t.find? loc = some .directory then throw (refused .isDirectory)
  return (t.insert loc (.file [])).hold loc

def appendFile (t : FileTree) (p : Path) (content : Bytes) : Except FileError FileTree :=
  t.updateFile p (· ++ content)

def removeFile (t : FileTree) (p : Path) : Except FileError FileTree := do
  let loc ← t.locate p
  match t.find? loc with
  | some (.file _) => .ok (t.unlink loc)
  | some .directory => .error (refuse .isDirectory [p])
  | none => .error (refuse .noEntry [p])

/-- The tree with the file at `source` moved to `target`, over a file that stands there. -/
def moveFile (t : FileTree) (source target : Path) : Except FileError FileTree := do
  let refused errno := refuse errno [source, target]
  let start ← (t.resolve source).mapError refused
  let goal ← (t.resolve target).mapError refused
  if target.name? = some ".." then .error (refused .busy)
  else
    match t.find? start, t.find? goal with
    | some (.file content), some (.file _) | some (.file content), none =>
        .ok (t.relocate start goal content)
    | some _, some .directory | some .directory, _ => .error (refused .isDirectory)
    | none, _ => .error (refused .noEntry)

def makeDirectory (t : FileTree) (p : Path) : Except FileError FileTree := do
  let loc ← t.locate p
  match t.find? loc with
  | some _ => .error (refuse .exists [p])
  | none => .ok (t.insert loc .directory)

def isDirectory (t : FileTree) (p : Path) : Bool :=
  match t.locate p with
  | .ok loc => t.find? loc = some .directory
  | .error _ => false

/-- Whether an error says that something is missing. -/
def isMissing : FileError → Bool
  | .os ⟨.noEntry, _⟩ => true
  | _ => false

/-- The tree with a directory at `p`, its parents made where they are missing. -/
def makeDirectories (t : FileTree) (p : Path) : FileTree × Option FileError :=
  match t.makeDirectory p with
  | .ok t => (t, none)
  | .error e =>
      if isMissing e then
        if _h : p.parts = [] then (t, some e)
        else
          match t.makeDirectories p.parent with
          | (t, some e) => (t, some e)
          | (t, none) =>
              match t.makeDirectory p with
              | .ok t => (t, none)
              | .error e => if isMissing e || !t.isDirectory p then (t, some e) else (t, none)
      else if t.isDirectory p then (t, none)
      else (t, some e)
termination_by p.parts.length
decreasing_by
  have := List.length_pos_iff.mpr _h
  simp only [Path.parent_parts, List.length_dropLast]
  omega

/-- The outcome of a replacement that fails: a refusal to be reported, or an error met while
clearing up. -/
inductive ReplaceError where
  | refused (error : Refusal)
  | unhandled (error : FileError)
  deriving DecidableEq, Repr

def clearAfter (t : FileTree) (beside : Path) (error : FileError) :
    FileTree × Except ReplaceError Unit :=
  match error with
  | .os refusal =>
      match t.removeFile beside with
      | .ok t => (t, .error (.refused refusal))
      | .error e => (t, .error (if isMissing e then .refused refusal else .unhandled e))
  | other => (t, .error (.unhandled other))

/-- The file at `target` replaced as a whole: the bytes are written beside it, under its name with
`.tmp` after it, and the new file is then moved over it. -/
def replaceFile (t : FileTree) (target : Path) (content : Bytes) :
    FileTree × Except ReplaceError Unit :=
  match target.appendToName ".tmp" with
  | none => (t, .error (.unhandled (.noName target)))
  | some beside =>
      match t.writeFile beside content with
      | .error e => t.clearAfter beside e
      | .ok t =>
          match t.moveFile beside target with
          | .error e => t.clearAfter beside e
          | .ok t => (t, .ok ())

end WordMachine.FileTree
