import Std.Data.HashSet
import WordMachine.Text.Quoted

/-!
# The vault

Walks over a grid of numbers and operators. A number cell applies the pending operator to the value
carried, an operator cell sets the operator. The walks are searched in order of their length and,
among equally long ones, of their moves.
-/

namespace WordMachine.Puzzle

inductive Operator where
  | plus
  | minus
  | times
  deriving DecidableEq, Repr, Hashable

def Operator.apply : Operator → Int → Int → Int
  | .plus, a, b => a + b
  | .minus, a, b => a - b
  | .times, a, b => a * b

def Operator.ofText? : String → Option Operator
  | "+" => some .plus
  | "-" => some .minus
  | "*" => some .times
  | _ => none

/-- A cell: a number, or the text of an operator. -/
inductive GridCell where
  | number (value : Int)
  | operator (text : String)
  deriving DecidableEq, Repr

/-- Rows of cells, from the north edge down. -/
abbrev Grid := Array (Array GridCell)

inductive Move where
  | north
  | south
  | east
  | west
  deriving DecidableEq, Repr

/-- The moves, in the order they are tried. -/
def Move.all : List Move := [.north, .south, .east, .west]

def Move.name : Move → String
  | .north => "north"
  | .south => "south"
  | .east => "east"
  | .west => "west"

structure Position where
  row : Int
  col : Int
  deriving DecidableEq, Repr, Hashable

def Position.after (p : Position) : Move → Position
  | .north => { p with row := p.row - 1 }
  | .south => { p with row := p.row + 1 }
  | .east => { p with col := p.col + 1 }
  | .west => { p with col := p.col - 1 }

/-- Why there is no walk to search for. -/
inductive VaultError where
  | outsideGrid
  | startNotNumber
  | unknownOperator (text : String)
  deriving DecidableEq, Repr

/-- The text of an error; `container` is the word for what a grid is made of. -/
def VaultError.message (container : String) : VaultError → String
  | .outsideGrid => container ++ " index out of range"
  | .startNotNumber => "start cell must hold a number when start_value is not given"
  | .unknownOperator text => "unknown vault operator " ++ Text.quote text

/-- Where a walk stands: the position, the value carried and the pending operator. -/
structure Walker where
  position : Position
  value : Int
  pending : Option Operator := none
  deriving DecidableEq, Repr, Hashable

/-- What a walk has to do. -/
structure Vault where
  grid : Grid
  start : Position
  initial : Int
  goal : Position
  wanted : Int

namespace Vault

/-- The built-in grid. -/
def standardGrid : Grid :=
  let op := GridCell.operator
  let num := GridCell.number
  #[#[op "*", num 8, op "-", num 1],
    #[num 4, op "*", num 11, op "*"],
    #[op "+", num 4, op "-", num 18],
    #[num 22, op "-", num 9, op "*"]]

def cell? (g : Grid) (p : Position) : Option GridCell :=
  if p.row < 0 || p.col < 0 then none
  else g[p.row.toNat]?.bind (·[p.col.toNat]?)

/-- What a move brings. -/
inductive Arrival where
  /-- The move is not possible, or leads nowhere. -/
  | blocked
  | walking (walker : Walker)
  | arrived

/-- The walker after a move. -/
def arrive (v : Vault) (w : Walker) (move : Move) : Except VaultError Arrival :=
  let position := w.position.after move
  match cell? v.grid position with
  | none => .ok .blocked
  | some cell =>
      if position = v.start then .ok .blocked
      else
        match cell with
        | .operator text =>
            match Operator.ofText? text with
            | none => .error (.unknownOperator text)
            | some op =>
                if position = v.goal then .ok .blocked
                else .ok (.walking { position, value := w.value, pending := some op })
        | .number n =>
            match w.pending with
            | none => .ok .blocked
            | some op =>
                let value := op.apply w.value n
                if value < 0 then .ok .blocked
                else if position = v.goal then
                  .ok (if value = v.wanted then .arrived else .blocked)
                else .ok (.walking { position, value })

/-- The walkers seen, and those to go on from next with their moves, newest first in both. -/
structure Front where
  seen : Std.HashSet Walker
  next : List (Walker × List Move) := []

/-- How a search ends early. -/
inductive Stop where
  | found (moves : List Move)
  | failed (error : VaultError)

/-- The front after one more move of one walker. -/
def extend (v : Vault) (w : Walker) (moves : List Move) (front : Front) (move : Move) :
    Except Stop Front :=
  match v.arrive w move with
  | .error e => .error (.failed e)
  | .ok .blocked => .ok front
  | .ok .arrived => .error (.found (move :: moves).reverse)
  | .ok (.walking w) =>
      if front.seen.contains w then .ok front
      else .ok { seen := front.seen.insert w, next := (w, move :: moves) :: front.next }

/-- The front after one more move of every walker. -/
def advance (v : Vault) (seen : Std.HashSet Walker) (walkers : List (Walker × List Move)) :
    Except Stop Front :=
  walkers.foldlM (fun front (w, moves) => Move.all.foldlM (v.extend w moves) front) { seen }

/-- The search for a walk of at most `steps` more moves. -/
def search (v : Vault) : (steps : Nat) → Std.HashSet Walker → List (Walker × List Move) →
    Except VaultError (Option (List Move))
  | 0, _, _ => .ok none
  | steps + 1, seen, walkers =>
      if walkers.isEmpty then .ok none
      else
        match v.advance seen walkers with
        | .error (.found moves) => .ok (some moves)
        | .error (.failed e) => .error e
        | .ok front => v.search steps front.seen front.next.reverse

/-- The first of the shortest walks of at most `steps` moves. -/
def walk (v : Vault) (steps : Nat) : Except VaultError (Option (List Move)) :=
  let walker : Walker := { position := v.start, value := v.initial }
  v.search steps (Std.HashSet.emptyWithCapacity.insert walker) [(walker, [])]

/-- An entry counted from the front or, with a negative number, from the back. -/
def entry? {α : Type} (xs : Array α) (index : Int) : Option α :=
  let index := if index < 0 then index + xs.size else index
  if index < 0 then none else xs[index.toNat]?

end Vault

/-- The first of the shortest walks over a grid: from the bottom left cell to the top right one
and with the number on the start cell, unless told otherwise. -/
def shortestWalk (grid : Grid) (start goal : Option Position) (initial : Option Int)
    (wanted steps : Int) : Except VaultError (Option (List Move)) := do
  let start := start.getD ⟨grid.size - 1, 0⟩
  let goal ← match goal, grid[0]? with
    | some goal, _ => pure goal
    | none, some row => pure ⟨0, row.size - 1⟩
    | none, none => throw .outsideGrid
  let initial ← match initial with
    | some value => pure value
    | none =>
        match (Vault.entry? grid start.row).bind (Vault.entry? · start.col) with
        | none => throw .outsideGrid
        | some (.number value) => pure value
        | some (.operator _) => throw .startNotNumber
  Vault.walk { grid, start, initial, goal, wanted } steps.toNat

end WordMachine.Puzzle
