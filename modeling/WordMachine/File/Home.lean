import WordMachine.File.Error

/-!
# Home directories

A relative path whose first name starts with `~` starts at the home directory of the user named
after that sign, or of the operator where no name follows it.
-/

namespace WordMachine

/-- The home directories of a system: the operator's, which is taken to be known, and what the
account database gives for the name of a user. -/
structure Homes where
  own : Path
  ofUser : String → Option Path

/-- A system whose only account is the administrator's. -/
def Homes.minimal (own : Path) : Homes where
  own
  ofUser user := if user = "root" then some { root := "/", parts := ["root"] } else none

namespace Homes

/-- The home directory of a user, or of the operator, who needs no name. -/
def find (homes : Homes) (user : String) : Except FileError Path :=
  if user = "" then .ok homes.own
  else if user.contains '\x00' then .error .nulByte
  else
    match homes.ofUser user with
    | some home => .ok home
    | none => .error .unknownHome

end Homes

/-- The path from the home directory that it asks for. -/
def Path.expandHome (p : Path) (homes : Homes) : Except FileError Path :=
  match p.parts with
  | first :: rest =>
      if p.root = "" && first.startsWith "~" then
        (homes.find (first.drop 1).toString).map fun home =>
          { home with parts := home.parts ++ rest }
      else .ok p
  | [] => .ok p

end WordMachine
