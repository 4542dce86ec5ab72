import WordMachine.File.Tree

/-!
# Open files

A file that is held open stays the same file when it is moved or loses its name to another one:
a handle leads to it wherever it stands, and to its last content when it stands nowhere. Bytes are
read and written at an offset, whatever else has written to the file in between.
-/

namespace WordMachine

/-- A file held open, as its place in the order in which the files were opened. -/
abbrev Handle := Nat

/-- The number of offsets in a file. -/
def maxOffset : Nat := 0x8000000000000000

/-- A place in a file held open. -/
structure Cursor where
  file : Handle
  offset : Nat := 0
  deriving DecidableEq, Repr

/-- The bytes with others written over them from an offset on. Zeros fill the gap to one that lies
beyond the end, unless there is nothing to write. -/
def overwrite (old : Bytes) (offset : Nat) (new : Bytes) : Bytes :=
  if new.isEmpty then old
  else
    old.take offset ++ List.replicate (offset - old.length) 0 ++ new
      ++ old.drop (offset + new.length)

namespace FileTree

def hold (t : FileTree) (loc : Location) : FileTree × Handle :=
  ({ t with opened := t.opened ++ [.named loc] }, t.opened.length)

def held (t : FileTree) (file : Handle) : Bytes :=
  match t.opened[file]? with
  | some (.named loc) =>
      match t.find? loc with
      | some (.file content) => content
      | _ => []
  | some (.nameless content) => content
  | none => []

/-- At most `n` bytes at a place, and the place behind them. -/
def readAt (t : FileTree) (c : Cursor) (n : Nat) : Bytes × Cursor :=
  let block := ((t.held c.file).drop c.offset).take (min n (maxOffset - c.offset))
  (block, { c with offset := c.offset + block.length })

/-- The tree with bytes written at a place, and the place behind them. A file that is held open
takes all bytes: there is always room. -/
def writeAt (t : FileTree) (c : Cursor) (new : Bytes) : FileTree × Cursor :=
  let content := overwrite (t.held c.file) c.offset new
  let t := match t.opened[c.file]? with
    | some (.named loc) => t.insert loc (.file content)
    | some (.nameless _) => { t with opened := t.opened.set c.file (.nameless content) }
    | none => t
  (t, { c with offset := c.offset + new.length })

/-- The tree without what stands at a location; a file that is held open only loses its name. -/
def unlink (t : FileTree) (loc : Location) : FileTree :=
  let lose (content : Bytes) : OpenFile → OpenFile
    | .named l => if l = loc then .nameless content else .named l
    | .nameless content => .nameless content
  match t.find? loc with
  | some (.file content) => { t.erase loc with opened := t.opened.map (lose content) }
  | _ => t.erase loc

/-- The tree with the file at `start`, which holds the given bytes, moved to `goal`, where another
one loses its name. -/
def relocate (t : FileTree) (start goal : Location) (content : Bytes) : FileTree :=
  let follow : OpenFile → OpenFile
    | .named l => .named (if l = start then goal else l)
    | .nameless content => .nameless content
  let t := t.unlink goal
  { (t.erase start).insert goal (.file content) with opened := t.opened.map follow }

theorem length_readAt_le (t : FileTree) (c : Cursor) (n : Nat) :
    (t.readAt c n).1.length ≤ maxOffset - c.offset := by
  simp only [readAt, List.length_take]
  omega

@[simp] theorem offset_readAt (t : FileTree) (c : Cursor) (n : Nat) :
    (t.readAt c n).2.offset = c.offset + (t.readAt c n).1.length := rfl

end FileTree

end WordMachine
