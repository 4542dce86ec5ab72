/-!
# Paths

A path is a list of names, `..` among them, below the current directory or below the root. Empty
names and `.` are dropped when a path is read from its text.
-/

namespace WordMachine

/-- A path: its root, which is empty for a relative path, and its names. -/
structure Path where
  root : String := ""
  parts : List String := []
  deriving DecidableEq, Repr, Inhabited

namespace Path

/-- The stretches of a text, where `name` was read of the first one and `acc` came before it, both
in reverse. -/
def splitOnto : List Char → List Char → List String → List String
  | [], name, acc => (String.ofList name.reverse :: acc).reverse
  | c :: cs, name, acc =>
      if c = '/' then splitOnto cs [] (String.ofList name.reverse :: acc)
      else splitOnto cs (c :: name) acc

/-- The stretches of a text between slashes. -/
def components (text : String) : List String := splitOnto text.toList [] []

/-- The path that a text writes. Two slashes in front, and no more, are a root of their own. -/
def ofString (text : String) : Path :=
  let slashes := (text.toList.takeWhile (· = '/')).length
  { root := if slashes = 0 then "" else if slashes = 2 then "//" else "/"
    parts := (components text).filter fun name => name != "" && name != "." }

/-- The text of a path; the current directory is written as a dot. -/
def toString (p : Path) : String :=
  if p.root = "" && p.parts.isEmpty then "." else p.root ++ "/".intercalate p.parts

instance : ToString Path := ⟨Path.toString⟩

def isAbsolute (p : Path) : Bool := p.root != ""

def name? (p : Path) : Option String := p.parts.getLast?

/-- The path without its last name; a root or the current directory is its own parent. -/
def parent (p : Path) : Path := { p with parts := p.parts.dropLast }

def appendToName (p : Path) (suffix : String) : Option Path :=
  p.name?.map fun name => { p with parts := p.parts.dropLast ++ [name ++ suffix] }

@[simp] theorem parent_parts (p : Path) : p.parent.parts = p.parts.dropLast := rfl

end Path

end WordMachine
