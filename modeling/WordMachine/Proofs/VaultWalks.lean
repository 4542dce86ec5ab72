import Mathlib.Data.List.Shortlex
import WordMachine.Puzzle.Vault

/-!
# Walks over the vault

What a walk may do, move by move, and when it opens the vault. Its moves settle where a walk ends.
Walks are compared by their length first and then move by move.
-/

namespace WordMachine.Puzzle

/-- The place of a move among the moves. -/
def Move.rank : Move → Nat
  | .north => 0
  | .south => 1
  | .east => 2
  | .west => 3

def Move.Before (a b : Move) : Prop := a.rank < b.rank

instance : DecidableRel Move.Before :=
  fun a b => inferInstanceAs (Decidable (a.rank < b.rank))

/-- The moves are tried in their order. -/
theorem Move.pairwise_all : Move.all.Pairwise Move.Before := by decide

theorem Move.mem_all (m : Move) : m ∈ Move.all := by
  cases m <;> decide

/-- A cell that holds a number or the text of an operator. -/
def GridCell.Known : GridCell → Prop
  | .number _ => True
  | .operator text => text = "+" ∨ text = "-" ∨ text = "*"

instance : DecidablePred GridCell.Known
  | .number _ => inferInstanceAs (Decidable True)
  | .operator text => inferInstanceAs (Decidable (text = "+" ∨ text = "-" ∨ text = "*"))

/-- A grid without unknown texts. -/
def Grid.Known (g : Grid) : Prop := ∀ row ∈ g, ∀ cell ∈ row, cell.Known

instance (g : Grid) : Decidable g.Known :=
  inferInstanceAs (Decidable (∀ row ∈ g, ∀ cell ∈ row, cell.Known))

theorem Grid.Known.cell {g : Grid} (h : g.Known) {p : Position} {c : GridCell}
    (found : Vault.cell? g p = some c) : c.Known := by
  unfold Vault.cell? at found
  split at found
  · cases found
  · obtain ⟨row, row_at, cell_at⟩ := Option.bind_eq_some_iff.mp found
    exact h row (Array.mem_of_getElem? row_at) c (Array.mem_of_getElem? cell_at)

theorem exists_ofText? {text : String} (known : (GridCell.operator text).Known) :
    ∃ op, Operator.ofText? text = some op := by
  rcases known with rfl | rfl | rfl
  · exact ⟨.plus, rfl⟩
  · exact ⟨.minus, rfl⟩
  · exact ⟨.times, rfl⟩

namespace Vault

variable {v : Vault} {w w' : Walker} {m : Move} {moves front : List Move}

/-- The walker at the start. -/
def departure (v : Vault) : Walker := { position := v.start, value := v.initial }

/-- The walker that opens the vault. -/
def opened (v : Vault) : Walker := { position := v.goal, value := v.wanted }

/-- What one move makes of a walker. It stays inside the grid and away from the start; the cell of
an operator replaces the pending one, and the cell of a number has the pending operator applied to
the value carried, which must not become negative. -/
inductive Carries (v : Vault) (w : Walker) (m : Move) : Walker → Prop where
  | operator {text : String} {op : Operator}
      (cell : cell? v.grid (w.position.after m) = some (.operator text))
      (away : w.position.after m ≠ v.start) (known : Operator.ofText? text = some op) :
      Carries v w m { position := w.position.after m, value := w.value, pending := some op }
  | number {n : Int} {op : Operator}
      (cell : cell? v.grid (w.position.after m) = some (.number n))
      (away : w.position.after m ≠ v.start) (pending : w.pending = some op)
      (fits : 0 ≤ op.apply w.value n) :
      Carries v w m { position := w.position.after m, value := op.apply w.value n }

/-- Where moves lead from the start. -/
inductive Walks (v : Vault) : List Move → Walker → Prop where
  | start : Walks v [] v.departure
  | move {moves : List Move} {m : Move} {w w' : Walker} (h : Walks v moves w)
      (carried : v.Carries w m w') : Walks v (moves ++ [m]) w'

/-- A sequence of moves that solves the vault: there are some, and at most so many; they lead to
the goal with no operator pending and the value that is wanted; and they do not come to the goal
before. -/
structure Valid (v : Vault) (steps : Int) (moves : List Move) : Prop where
  some_move : moves ≠ []
  within : moves.length ≤ steps
  opens : v.Walks moves v.opened
  goal_last : ∀ front w, front <+: moves → front ≠ [] → front ≠ moves → v.Walks front w →
    w.position ≠ v.goal

theorem Carries.unique {w₁ w₂ : Walker} (h₁ : v.Carries w m w₁) (h₂ : v.Carries w m w₂) :
    w₁ = w₂ := by
  cases h₁ with
  | operator cell away known =>
      cases h₂ with
      | operator cell' away' known' =>
          obtain rfl := GridCell.operator.inj (Option.some.inj (cell.symm.trans cell'))
          rw [known] at known'
          obtain rfl := Option.some.inj known'
          rfl
      | number cell' => cases cell.symm.trans cell'
  | number cell away pending fits =>
      cases h₂ with
      | operator cell' => cases cell.symm.trans cell'
      | number cell' away' pending' fits' =>
          obtain rfl := GridCell.number.inj (Option.some.inj (cell.symm.trans cell'))
          rw [pending] at pending'
          obtain rfl := Option.some.inj pending'
          rfl

theorem walks_concat_iff : v.Walks (moves ++ [m]) w' ↔ ∃ w, v.Walks moves w ∧ v.Carries w m w' := by
  constructor
  · generalize whole : moves ++ [m] = all
    intro h
    cases h with
    | start => simp at whole
    | @move front m' w _ h carried =>
        obtain ⟨rfl, last⟩ := List.append_inj' whole rfl
        obtain rfl := List.singleton_inj.mp last
        exact ⟨w, h, carried⟩
  · rintro ⟨w, h, carried⟩
    exact h.move carried

/-- The moves settle where a walk ends. -/
theorem Walks.unique {w₁ w₂ : Walker} (h₁ : v.Walks moves w₁) (h₂ : v.Walks moves w₂) :
    w₁ = w₂ := by
  induction h₁ generalizing w₂ with
  | start =>
      generalize none_moved : ([] : List Move) = moves at h₂
      cases h₂ with
      | start => rfl
      | move => simp at none_moved
  | @move moves m w w' h carried ih =>
      obtain ⟨u, h', carried'⟩ := walks_concat_iff.mp h₂
      obtain rfl := ih h'
      exact carried.unique carried'

/-- A walk that has not come to the goal yet. -/
inductive Strolls (v : Vault) : List Move → Walker → Prop where
  | start : Strolls v [] v.departure
  | move {moves : List Move} {m : Move} {w w' : Walker} (h : Strolls v moves w)
      (carried : v.Carries w m w') (short : w'.position ≠ v.goal) : Strolls v (moves ++ [m]) w'

namespace Strolls

theorem walks (h : v.Strolls moves w) : v.Walks moves w := by
  induction h with
  | start => exact .start
  | move _ carried _ ih => exact ih.move carried

theorem of_walks (h : v.Walks moves w)
    (short : ∀ front w, front <+: moves → front ≠ [] → v.Walks front w → w.position ≠ v.goal) :
    v.Strolls moves w := by
  induction h with
  | start => exact .start
  | @move moves m w w' h carried ih =>
      have before := ih fun front u begins => short front u (begins.trans (List.prefix_append _ _))
      exact before.move carried (short _ w' (List.prefix_refl _) (by simp) (h.move carried))

theorem position_ne (h : v.Strolls moves w) (moved : moves ≠ []) : w.position ≠ v.goal := by
  cases h with
  | start => exact absurd rfl moved
  | move _ _ short => exact short

/-- A walk that has not come to the goal had not come there before. -/
theorem exists_of_prefix (h : v.Strolls moves w) (begins : front <+: moves) :
    ∃ w, v.Strolls front w := by
  induction h with
  | start =>
      obtain rfl := List.prefix_nil.mp begins
      exact ⟨_, .start⟩
  | @move moves m w w' h carried short ih =>
      rcases List.prefix_concat_iff.mp begins with rfl | begins
      · exact ⟨w', h.move carried short⟩
      · exact ih begins

theorem concat_inv {last : Move} (h : v.Strolls (moves ++ [last]) w') :
    ∃ w, v.Strolls moves w ∧ v.Carries w last w' ∧ w'.position ≠ v.goal := by
  obtain ⟨w, begins⟩ := h.exists_of_prefix (List.prefix_append moves [last])
  obtain ⟨u, walked, carried⟩ := walks_concat_iff.mp h.walks
  obtain rfl := begins.walks.unique walked
  exact ⟨w, begins, carried, h.position_ne (by simp)⟩

end Strolls

/-- Moves that open the vault: the last of them brings the walker to the goal. -/
inductive Opens (v : Vault) : List Move → Prop where
  | last {moves : List Move} {m : Move} {w : Walker} (strolls : v.Strolls moves w)
      (carried : v.Carries w m v.opened) : Opens v (moves ++ [m])

/-- The moves that solve the vault are those, few enough, whose last one opens it. -/
theorem valid_iff {steps : Int} : v.Valid steps moves ↔ v.Opens moves ∧ moves.length ≤ steps := by
  constructor
  · intro h
    obtain ⟨front, m, rfl⟩ := (List.eq_nil_or_concat' moves).resolve_left h.some_move
    obtain ⟨w, walked, carried⟩ := walks_concat_iff.mp h.opens
    have strolls : v.Strolls front w := by
      apply Strolls.of_walks walked
      intro earlier u begins moved walked'
      have shorter : earlier ≠ front ++ [m] := by
        rintro rfl
        simpa using begins.length_le
      exact h.goal_last earlier u (begins.trans (List.prefix_append _ _)) moved shorter walked'
    exact ⟨.last strolls carried, h.within⟩
  · rintro ⟨@⟨front, m, w, strolls, carried⟩, within⟩
    refine ⟨by simp, within, strolls.walks.move carried, ?_⟩
    intro earlier u begins moved other walked
    have begins : earlier <+: front := (List.prefix_concat_iff.mp begins).resolve_left other
    obtain ⟨u', strolls'⟩ := strolls.exists_of_prefix begins
    obtain rfl := walked.unique strolls'.walks
    exact strolls'.position_ne moved

/-- What a move brings is what it makes of the walker, told by where that is. -/
inductive Brings (v : Vault) (w : Walker) (m : Move) : Prop where
  | blocked (arrive : v.arrive w m = .ok .blocked)
      (stuck : ∀ w', v.Carries w m w' → w'.position = v.goal ∧ w' ≠ v.opened)
  | walking (w' : Walker) (arrive : v.arrive w m = .ok (.walking w'))
      (carried : v.Carries w m w') (short : w'.position ≠ v.goal)
  | arrived (arrive : v.arrive w m = .ok .arrived) (carried : v.Carries w m v.opened)

private theorem brings_operator {text : String} {op : Operator}
    (found : cell? v.grid (w.position.after m) = some (.operator text))
    (away : w.position.after m ≠ v.start) (read : Operator.ofText? text = some op) :
    v.Brings w m := by
  have carried := Carries.operator found away read
  by_cases goal : w.position.after m = v.goal
  · refine .blocked (by simp only [arrive, found, if_neg away, read, if_pos goal]) ?_
    intro w' carried'
    obtain rfl := carried.unique carried'
    exact ⟨goal, by simp [opened]⟩
  · exact .walking _ (by simp only [arrive, found, if_neg away, read, if_neg goal]) carried goal

private theorem brings_number {n : Int}
    (found : cell? v.grid (w.position.after m) = some (.number n))
    (away : w.position.after m ≠ v.start) : v.Brings w m := by
  cases pending : w.pending with
  | none =>
      refine .blocked (by simp only [arrive, found, if_neg away, pending]) ?_
      intro w' carried
      cases carried with
      | operator cell => cases found.symm.trans cell
      | number _ _ pending' => cases pending.symm.trans pending'
  | some op =>
      by_cases negative : op.apply w.value n < 0
      · refine .blocked (by simp only [arrive, found, if_neg away, pending, if_pos negative]) ?_
        intro w' carried
        cases carried with
        | operator cell => cases found.symm.trans cell
        | number cell _ pending' fits =>
            obtain rfl := GridCell.number.inj (Option.some.inj (found.symm.trans cell))
            obtain rfl := Option.some.inj (pending.symm.trans pending')
            exact absurd negative (Int.not_lt.mpr fits)
      · have carried := Carries.number found away pending (Int.not_lt.mp negative)
        by_cases goal : w.position.after m = v.goal
        · by_cases wanted : op.apply w.value n = v.wanted
          · have arrives : v.arrive w m = .ok .arrived := by
              simp only [arrive, found, if_neg away, pending, if_neg negative, if_pos goal,
                if_pos wanted]
            rw [goal, wanted] at carried
            exact .arrived arrives carried
          · have arrives : v.arrive w m = .ok .blocked := by
              simp only [arrive, found, if_neg away, pending, if_neg negative, if_pos goal,
                if_neg wanted]
            refine .blocked arrives ?_
            intro w' carried'
            obtain rfl := carried.unique carried'
            exact ⟨goal, by simp [opened, wanted]⟩
        · refine .walking _ ?_ carried goal
          simp only [arrive, found, if_neg away, pending, if_neg negative, if_neg goal]

theorem brings (known : v.grid.Known) (w : Walker) (m : Move) : v.Brings w m := by
  cases found : cell? v.grid (w.position.after m) with
  | none =>
      refine .blocked (by simp only [arrive, found]) ?_
      intro w' carried
      cases carried with
      | operator cell | number cell => cases found.symm.trans cell
  | some cell =>
      by_cases away : w.position.after m = v.start
      · refine .blocked (by simp only [arrive, found, if_pos away]) ?_
        intro w' carried
        cases carried with
        | operator _ away' | number _ away' => exact absurd away away'
      · cases cell with
        | operator text =>
            obtain ⟨op, read⟩ := exists_ofText? (known.cell found)
            exact brings_operator found away read
        | number n => exact brings_number found away

/-- One sequence of moves is another, or comes before it among those of its length. -/
def AtMost (xs ys : List Move) : Prop := xs = ys ∨ List.Lex Move.Before xs ys

theorem lex_trans {xs ys zs : List Move} (h : List.Lex Move.Before xs ys)
    (h' : List.Lex Move.Before ys zs) : List.Lex Move.Before xs zs :=
  List.lex_trans (fun first second => Nat.lt_trans first second) h h'

theorem AtMost.trans_lex {xs ys zs : List Move} (h : AtMost xs ys)
    (h' : List.Lex Move.Before ys zs) : List.Lex Move.Before xs zs := by
  rcases h with rfl | h
  · exact h'
  · exact lex_trans h h'

theorem AtMost.trans {xs ys zs : List Move} (h : AtMost xs ys) (h' : AtMost ys zs) :
    AtMost xs zs := by
  rcases h' with rfl | h'
  · exact h
  · exact .inr (h.trans_lex h')

/-- Sequences of one length are compared before what is added to them. -/
theorem lex_concat {xs ys : List Move} (h : List.Lex Move.Before xs ys)
    (length : xs.length = ys.length) (a b : Move) :
    List.Lex Move.Before (xs ++ [a]) (ys ++ [b]) := by
  induction h with
  | nil => simp at length
  | rel first => exact .rel first
  | cons _ ih => exact .cons (ih (Nat.succ.inj length))

theorem AtMost.concat {xs ys : List Move} (h : AtMost xs ys) (length : xs.length = ys.length)
    (m : Move) : AtMost (xs ++ [m]) (ys ++ [m]) := by
  rcases h with rfl | h
  · exact .inl rfl
  · exact .inr (lex_concat h length m m)

end Vault

end WordMachine.Puzzle
