import WordMachine.Proofs.VaultWalks

/-!
# The search for a walk

The search goes over the walks level by level, each level holding walks of one length in their
order. A walker that was seen before can be left out: another walk leads to the same walker, and
that one is shorter or comes before. What opens the vault first is therefore the first of the
shortest walks, and when a level is empty no walk opens it.
-/

namespace WordMachine.Puzzle

namespace Vault

variable {v : Vault} {k : Nat} {seen : Std.HashSet Walker} {walkers : List (Walker × List Move)}

/-- One of the walkers of a level, with one move more. -/
structure Offer where
  walker : Walker
  moves : List Move
  move : Move

namespace Offer

/-- The moves of the walk, oldest first. -/
def path (o : Offer) : List Move := (o.move :: o.moves).reverse

/-- What the move makes of the walker. -/
def Leads (o : Offer) (v : Vault) (w : Walker) : Prop := v.Carries o.walker o.move w

end Offer

/-- What a level has to offer, in the order it is tried. -/
def offers (walkers : List (Walker × List Move)) : List Offer :=
  walkers.flatMap fun (w, moves) => Move.all.map fun m => ⟨w, moves, m⟩

def sweep (v : Vault) (front : Front) (os : List Offer) : Except Stop Front :=
  os.foldlM (fun front o => v.extend o.walker o.moves front o.move) front

theorem mem_offers {o : Offer} : o ∈ offers walkers ↔ (o.walker, o.moves) ∈ walkers := by
  obtain ⟨w, moves, m⟩ := o
  simp only [offers, List.mem_flatMap, List.mem_map, Offer.mk.injEq]
  constructor
  · rintro ⟨⟨w', moves'⟩, mem, m', -, rfl, rfl, rfl⟩
    exact mem
  · intro mem
    exact ⟨(w, moves), mem, m, m.mem_all, rfl, rfl, rfl⟩

theorem advance_eq (v : Vault) (seen : Std.HashSet Walker) (walkers : List (Walker × List Move)) :
    v.advance seen walkers = v.sweep { seen } (offers walkers) := by
  unfold advance sweep
  generalize ({ seen } : Front) = front
  induction walkers generalizing front with
  | nil => rfl
  | cons e walkers ih =>
      have rest : offers (e :: walkers) =
          (Move.all.map fun m => ⟨e.1, e.2, m⟩) ++ offers walkers := rfl
      rw [rest, List.foldlM_cons, List.foldlM_append, List.foldlM_map]
      exact bind_congr fun front => ih front

/-- What is known before the walks of length `k` are carried on: they are those listed, in their
order, but for walkers that a shorter walk or an earlier one of that length leads to as well. -/
structure Level (v : Vault) (k : Nat) (seen : Std.HashSet Walker)
    (walkers : List (Walker × List Move)) : Prop where
  sorted : walkers.Pairwise fun e f => List.Lex Move.Before e.2.reverse f.2.reverse
  length : ∀ e ∈ walkers, e.2.length = k
  strolls : ∀ e ∈ walkers, v.Strolls e.2.reverse e.1
  seen_iff : ∀ w, seen.contains w = true ↔ ∃ moves, moves.length ≤ k ∧ v.Strolls moves w
  listed : ∀ moves w, v.Strolls moves w → moves.length = k →
    (∃ shorter, shorter.length < k ∧ v.Strolls shorter w) ∨
      ∃ e ∈ walkers, e.1 = w ∧ AtMost e.2.reverse moves

/-- What is known of a front after some offers were looked at. -/
structure Swept (v : Vault) (seen : Std.HashSet Walker) (done : List Offer) (front : Front) :
    Prop where
  sorted : front.next.reverse.Pairwise fun e f => List.Lex Move.Before e.2.reverse f.2.reverse
  offered : ∀ e ∈ front.next, ∃ o ∈ done,
    e.2.reverse = o.path ∧ o.Leads v e.1 ∧ e.1.position ≠ v.goal
  seen_iff : ∀ w, front.seen.contains w = true ↔
    seen.contains w = true ∨ ∃ o ∈ done, o.Leads v w ∧ w.position ≠ v.goal
  listed : ∀ o ∈ done, ∀ w, o.Leads v w → w.position ≠ v.goal →
    seen.contains w = true ∨ ∃ e ∈ front.next, e.1 = w ∧ AtMost e.2.reverse o.path
  shut : ∀ o ∈ done, ¬o.Leads v v.opened

namespace Swept

variable {done todo : List Offer} {front : Front} {o : Offer}

private theorem exists_mem_concat {P : Offer → Prop} :
    (∃ o' ∈ done ++ [o], P o') ↔ (∃ o' ∈ done, P o') ∨ P o := by
  simp [or_and_right, exists_or]

theorem start (v : Vault) (seen : Std.HashSet Walker) : v.Swept seen [] { seen } where
  sorted := .nil
  offered := by simp
  seen_iff := by simp
  listed := by simp
  shut := by simp

/-- An offer that leads nowhere new leaves the front as it is. -/
theorem skip (h : v.Swept seen done front)
    (known : ∀ w, o.Leads v w → w.position ≠ v.goal → front.seen.contains w = true)
    (shut : ¬o.Leads v v.opened) (later : ∀ o' ∈ done, List.Lex Move.Before o'.path o.path) :
    v.Swept seen (done ++ [o]) front where
  sorted := h.sorted
  offered := by
    intro e mem
    obtain ⟨o', mem', path, leads⟩ := h.offered e mem
    exact ⟨o', List.mem_append_left _ mem', path, leads⟩
  seen_iff := by
    intro w
    rw [exists_mem_concat, ← or_assoc, ← h.seen_iff]
    constructor
    · exact .inl
    · rintro (old | ⟨leads, short⟩)
      · exact old
      · exact known w leads short
  listed := by
    refine List.forall_mem_append.mpr ⟨h.listed, List.forall_mem_singleton.mpr ?_⟩
    intro w leads short
    rcases (h.seen_iff w).mp (known w leads short) with old | ⟨first, mem, leads', -⟩
    · exact .inl old
    · -- the walker was offered before, by a walk that comes before this one
      rcases h.listed first mem w leads' short with old | ⟨e, listed, same, most⟩
      · exact .inl old
      · exact .inr ⟨e, listed, same, .inr (most.trans_lex (later first mem))⟩
  shut := List.forall_mem_append.mpr ⟨h.shut, List.forall_mem_singleton.mpr shut⟩

/-- An offer that leads to a new walker adds it at the end. -/
theorem add {w : Walker} (h : v.Swept seen done front) (leads : o.Leads v w)
    (short : w.position ≠ v.goal) (later : ∀ o' ∈ done, List.Lex Move.Before o'.path o.path) :
    v.Swept seen (done ++ [o])
      { seen := front.seen.insert w, next := (w, o.move :: o.moves) :: front.next } where
  sorted := by
    rw [List.reverse_cons, List.pairwise_append]
    refine ⟨h.sorted, List.pairwise_singleton _ _, ?_⟩
    intro e mem f last
    obtain rfl := List.mem_singleton.mp last
    obtain ⟨o', before, path, -⟩ := h.offered e (List.mem_reverse.mp mem)
    rw [path]
    exact later o' before
  offered := by
    intro e mem
    rcases List.mem_cons.mp mem with rfl | old
    · exact ⟨o, by simp, rfl, leads, short⟩
    · obtain ⟨o', mem', path, leads'⟩ := h.offered e old
      exact ⟨o', List.mem_append_left _ mem', path, leads'⟩
  seen_iff := by
    intro u
    rw [Std.HashSet.contains_insert, Bool.or_eq_true, beq_iff_eq, exists_mem_concat, ← or_assoc,
      ← h.seen_iff]
    constructor
    · rintro (rfl | old)
      · exact .inr ⟨leads, short⟩
      · exact .inl old
    · rintro (old | ⟨leads', -⟩)
      · exact .inr old
      · exact .inl (leads.unique leads')
  listed := by
    refine List.forall_mem_append.mpr ⟨?_, List.forall_mem_singleton.mpr ?_⟩
    · intro o' before u leads' short'
      rcases h.listed o' before u leads' short' with old | ⟨e, listed, same, most⟩
      · exact .inl old
      · exact .inr ⟨e, List.mem_cons_of_mem _ listed, same, most⟩
    · intro u leads' _
      exact .inr ⟨_, List.mem_cons_self, leads.unique leads', .inl rfl⟩
  shut := by
    refine List.forall_mem_append.mpr ⟨h.shut, List.forall_mem_singleton.mpr ?_⟩
    intro opens
    obtain rfl := leads.unique opens
    exact short rfl

/-- One offer: it is taken in, or opens the vault. -/
theorem extend (known : v.grid.Known) (h : v.Swept seen done front)
    (later : ∀ o' ∈ done, List.Lex Move.Before o'.path o.path) :
    (∃ front', v.extend o.walker o.moves front o.move = .ok front' ∧
      v.Swept seen (done ++ [o]) front') ∨
    (v.extend o.walker o.moves front o.move = .error (.found o.path) ∧ o.Leads v v.opened) := by
  cases v.brings known o.walker o.move with
  | blocked arrive stuck =>
      left
      refine ⟨front, by simp only [Vault.extend, arrive], h.skip ?_ ?_ later⟩
      · intro w leads short
        exact absurd (stuck w leads).1 short
      · intro opens
        exact (stuck v.opened opens).2 rfl
  | walking w arrive leads short =>
      left
      cases new : front.seen.contains w with
      | true =>
          refine ⟨front, by simp [Vault.extend, arrive, new], h.skip ?_ ?_ later⟩
          · intro u leads' _
            exact leads.unique leads' ▸ new
          · intro opens
            obtain rfl := leads.unique opens
            exact short rfl
      | false => exact ⟨_, by simp [Vault.extend, arrive, new], h.add leads short later⟩
  | arrived arrive opens => exact .inr ⟨by simp only [Vault.extend, arrive]; rfl, opens⟩

/-- All offers are taken in, or the first that opens the vault ends the sweep. -/
theorem sweep (known : v.grid.Known) (h : v.Swept seen done front)
    (sorted : (done ++ todo).Pairwise fun o o' => List.Lex Move.Before o.path o'.path) :
    (∃ front', v.sweep front todo = .ok front' ∧ v.Swept seen (done ++ todo) front') ∨
    (∃ before o after, done ++ todo = before ++ o :: after ∧
      v.sweep front todo = .error (.found o.path) ∧ o.Leads v v.opened ∧
      ∀ o' ∈ before, ¬o'.Leads v v.opened) := by
  induction todo generalizing done front with
  | nil => exact .inl ⟨front, rfl, by rwa [List.append_nil]⟩
  | cons o todo ih =>
      have later : ∀ o' ∈ done, List.Lex Move.Before o'.path o.path :=
        fun o' mem => (List.pairwise_append.mp sorted).2.2 o' mem o List.mem_cons_self
      rcases h.extend known later with ⟨front', extended, swept⟩ | ⟨found, opens⟩
      · have step : v.sweep front (o :: todo) = v.sweep front' todo := by
          rw [Vault.sweep, List.foldlM_cons, extended]
          rfl
        rw [List.append_cons] at sorted
        rw [step, List.append_cons done o todo]
        exact ih swept sorted
      · refine .inr ⟨done, o, todo, rfl, ?_, opens, h.shut⟩
        rw [Vault.sweep, List.foldlM_cons, found]
        rfl

end Swept

namespace Level

/-- The offers of a level are in the order of their walks. -/
theorem pairwise_offers (level : v.Level k seen walkers) :
    (offers walkers).Pairwise fun o o' => List.Lex Move.Before o.path o'.path := by
  rw [offers, List.pairwise_flatMap]
  constructor
  · rintro ⟨w, moves⟩ -
    rw [List.pairwise_map]
    refine Move.pairwise_all.imp ?_
    intro m m' before
    simp only [Offer.path, List.reverse_cons]
    exact List.Lex.append_left _ (.rel before) _
  · refine level.sorted.imp_of_mem ?_
    intro e f mem mem' before o mem_o o' mem_o'
    obtain ⟨m, -, rfl⟩ := List.mem_map.mp mem_o
    obtain ⟨m', -, rfl⟩ := List.mem_map.mp mem_o'
    simp only [Offer.path, List.reverse_cons]
    apply lex_concat before
    rw [List.length_reverse, List.length_reverse, level.length e mem, level.length f mem']

theorem length_path (level : v.Level k seen walkers) {o : Offer} (mem : o ∈ offers walkers) :
    o.path.length = k + 1 := by
  have length := level.length _ (mem_offers.mp mem)
  simpa [Offer.path] using length

/-- A walk of the next length is offered, or one that comes before it, unless a shorter walk leads
to where it was carried on from. -/
theorem offered (level : v.Level k seen walkers) {moves : List Move} {m : Move} {w w' : Walker}
    (strolls : v.Strolls moves w) (length : moves.length = k) (carried : v.Carries w m w') :
    (∃ shorter, shorter.length < k ∧ v.Strolls shorter w) ∨
      ∃ o ∈ offers walkers, o.Leads v w' ∧ AtMost o.path (moves ++ [m]) := by
  rcases level.listed moves w strolls length with shorter | ⟨⟨u, listed⟩, mem, rfl, most⟩
  · exact .inl shorter
  · have lengths : listed.reverse.length = moves.length := by
      rw [List.length_reverse, level.length _ mem, length]
    have path : Offer.path ⟨u, listed, m⟩ = listed.reverse ++ [m] := List.reverse_cons
    refine .inr ⟨⟨u, listed, m⟩, mem_offers.mpr mem, carried, ?_⟩
    rw [path]
    exact most.concat lengths m

theorem offered_of_strolls (level : v.Level k seen walkers) {moves : List Move} {w : Walker}
    (strolls : v.Strolls moves w) (length : moves.length = k + 1) :
    (∃ shorter, shorter.length ≤ k ∧ v.Strolls shorter w) ∨
      ∃ o ∈ offers walkers, o.Leads v w ∧ w.position ≠ v.goal ∧ AtMost o.path moves := by
  have moved : moves ≠ [] := List.ne_nil_of_length_eq_add_one length
  obtain ⟨front, m, rfl⟩ := (List.eq_nil_or_concat' moves).resolve_left moved
  obtain ⟨u, begins, carried, short⟩ := strolls.concat_inv
  have front_length : front.length = k := by simpa using length
  rcases level.offered begins front_length carried with
    ⟨shorter, less, to_u⟩ | ⟨o, mem, leads, most⟩
  · have within : (shorter ++ [m]).length ≤ k := by
      rw [List.length_append, List.length_singleton]
      exact less
    exact .inl ⟨shorter ++ [m], within, to_u.move carried short⟩
  · exact .inr ⟨o, mem, leads, short, most⟩

theorem strolls_path (level : v.Level k seen walkers) {o : Offer} (mem : o ∈ offers walkers)
    {w : Walker} (leads : o.Leads v w) (short : w.position ≠ v.goal) : v.Strolls o.path w := by
  rw [Offer.path, List.reverse_cons]
  exact (level.strolls _ (mem_offers.mp mem)).move leads short

/-- When all offers were taken in, the front is the next level. -/
theorem next (level : v.Level k seen walkers) {front : Front}
    (swept : v.Swept seen (offers walkers) front) :
    v.Level (k + 1) front.seen front.next.reverse where
  sorted := swept.sorted
  length := by
    intro e mem
    obtain ⟨o, mem_o, path, -⟩ := swept.offered e (List.mem_reverse.mp mem)
    rw [← List.length_reverse, path, level.length_path mem_o]
  strolls := by
    intro e mem
    obtain ⟨o, mem_o, path, leads, short⟩ := swept.offered e (List.mem_reverse.mp mem)
    rw [path]
    exact level.strolls_path mem_o leads short
  seen_iff := by
    intro w
    rw [swept.seen_iff, level.seen_iff]
    constructor
    · rintro (⟨moves, within, strolls⟩ | ⟨o, mem, leads, short⟩)
      · exact ⟨moves, Nat.le_succ_of_le within, strolls⟩
      · exact ⟨o.path, (level.length_path mem).le, level.strolls_path mem leads short⟩
    · rintro ⟨moves, within, strolls⟩
      rcases Nat.lt_or_eq_of_le within with less | length
      · exact .inl ⟨moves, Nat.le_of_lt_succ less, strolls⟩
      · rcases level.offered_of_strolls strolls length with shorter | ⟨o, mem, leads, short, -⟩
        · exact .inl shorter
        · exact .inr ⟨o, mem, leads, short⟩
  listed := by
    intro moves w strolls length
    rcases level.offered_of_strolls strolls length with
      ⟨shorter, within, to_w⟩ | ⟨o, mem, leads, short, most⟩
    · exact .inl ⟨shorter, Nat.lt_succ_of_le within, to_w⟩
    · rcases swept.listed o mem w leads short with old | ⟨e, listed, same, most'⟩
      · obtain ⟨shorter, within, to_w⟩ := (level.seen_iff w).mp old
        exact .inl ⟨shorter, Nat.lt_succ_of_le within, to_w⟩
      · exact .inr ⟨e, List.mem_reverse.mpr listed, same, most'.trans most⟩

/-- Moves that open the vault from this level on are offered, or others that come before them. -/
theorem offered_of_opens (level : v.Level k seen walkers)
    (closed : ∀ moves, v.Opens moves → k < moves.length) {moves : List Move}
    (opens : v.Opens moves) (length : moves.length = k + 1) :
    ∃ o ∈ offers walkers, o.Leads v v.opened ∧ AtMost o.path moves := by
  obtain @⟨front, m, w, strolls, carried⟩ := opens
  have front_length : front.length = k := by simpa using length
  rcases level.offered strolls front_length carried with ⟨shorter, less, to_w⟩ | offered
  · have too_short := closed _ (.last to_w carried)
    simp at too_short
    omega
  · exact offered

theorem opens_path (level : v.Level k seen walkers) {o : Offer} (mem : o ∈ offers walkers)
    (leads : o.Leads v v.opened) : v.Opens o.path := by
  rw [Offer.path, List.reverse_cons]
  exact .last (level.strolls _ (mem_offers.mp mem)) leads

/-- One move more of every walker: either no walk of that length opens the vault and the front is
the next level, or the first walk of that length that opens it is found. -/
theorem advance (known : v.grid.Known) (level : v.Level k seen walkers)
    (closed : ∀ moves, v.Opens moves → k < moves.length) :
    (∃ front, v.advance seen walkers = .ok front ∧
      v.Level (k + 1) front.seen front.next.reverse ∧
      ∀ moves, v.Opens moves → k + 1 < moves.length) ∨
    (∃ moves, v.advance seen walkers = .error (.found moves) ∧ v.Opens moves ∧
      moves.length = k + 1 ∧
      ∀ other, v.Opens other → other.length = k + 1 → AtMost moves other) := by
  rw [advance_eq]
  rcases (Swept.start v seen).sweep known level.pairwise_offers with
    ⟨front, swept_eq, swept⟩ | ⟨before, o, after, place, found, leads, shut⟩
  · refine .inl ⟨front, swept_eq, level.next swept, ?_⟩
    intro moves opens
    apply Nat.lt_of_le_of_ne (closed moves opens)
    intro length
    obtain ⟨o, mem, leads, -⟩ := level.offered_of_opens closed opens length.symm
    exact swept.shut o mem leads
  · have place : offers walkers = before ++ o :: after := place
    have mem : o ∈ offers walkers := by simp [place]
    refine .inr ⟨o.path, found, level.opens_path mem leads, level.length_path mem, ?_⟩
    intro other opens length
    obtain ⟨o', mem', leads', most⟩ := level.offered_of_opens closed opens length
    -- no offer before the one that was found opens the vault
    rw [place] at mem'
    rcases List.mem_append.mp mem' with early | late
    · exact absurd leads' (shut o' early)
    · rcases List.mem_cons.mp late with rfl | late
      · exact most
      · have sorted := level.pairwise_offers
        rw [place, List.pairwise_append] at sorted
        have before_late := List.rel_of_pairwise_cons sorted.2.1 late
        exact AtMost.trans (.inr before_late) most

end Level

theorem search_nil (v : Vault) (n : Nat) (seen : Std.HashSet Walker) :
    v.search n seen [] = .ok none := by
  cases n <;> rfl

/-- The search from a level on finds the first of the shortest walks that open the vault within so
many moves more, if there is one. -/
theorem Level.search (known : v.grid.Known) (level : v.Level k seen walkers)
    (closed : ∀ moves, v.Opens moves → k < moves.length) (n : Nat) :
    ∃ result, v.search n seen walkers = .ok result ∧
      (result = none → ∀ moves, v.Opens moves → k + n < moves.length) ∧
      ∀ moves, result = some moves → v.Opens moves ∧ moves.length ≤ k + n ∧
        ∀ other, v.Opens other →
          moves.length < other.length ∨ moves.length = other.length ∧ AtMost moves other := by
  induction n generalizing k seen walkers with
  | zero => exact ⟨none, rfl, fun _ => closed, by simp⟩
  | succ n ih =>
      have more : k + (n + 1) = k + 1 + n := by omega
      rcases level.advance known closed with
        ⟨front, advanced, next, closed'⟩ | ⟨moves, found, opens, length, first⟩
      · obtain ⟨result, searched, none_opens, finds⟩ := ih next closed'
        refine ⟨result, ?_, ?_, ?_⟩
        · cases walkers with
          | nil =>
              -- a level without walkers has a next one without walkers
              obtain rfl := Except.ok.inj advanced
              rw [← searched, List.reverse_nil, search_nil, search_nil]
          | cons e walkers => simpa [Vault.search, advanced] using searched
        · rwa [more]
        · rwa [more]
      · have some_walker : walkers.isEmpty = false := by
          cases walkers with
          | nil => cases found
          | cons e walkers => rfl
        refine ⟨some moves, by simp [Vault.search, some_walker, found], by simp, ?_⟩
        rintro moves' ⟨⟩
        refine ⟨opens, by omega, ?_⟩
        intro other opens'
        have longer : k < other.length := closed other opens'
        by_cases same : other.length = k + 1
        · exact .inr ⟨length.trans same.symm, first other opens' same⟩
        · exact .inl (by omega)

/-- The search begins with the walk that has not moved. -/
theorem level_zero (v : Vault) : v.Level 0
    (Std.HashSet.emptyWithCapacity.insert v.departure) [(v.departure, [])] where
  sorted := List.pairwise_singleton _ _
  length := by simp
  strolls := by
    intro e mem
    obtain rfl := List.mem_singleton.mp mem
    exact .start
  seen_iff := by
    intro w
    simp only [Std.HashSet.contains_insert, Std.HashSet.contains_emptyWithCapacity, Bool.or_false,
      beq_iff_eq, Nat.le_zero_eq, List.length_eq_zero_iff, exists_eq_left]
    constructor
    · rintro rfl
      exact .start
    · intro strolls
      exact Walks.unique .start strolls.walks
  listed := by
    intro moves w strolls length
    obtain rfl := List.length_eq_zero_iff.mp length
    have same : v.departure = w := Walks.unique .start strolls.walks
    exact .inr ⟨_, List.mem_singleton_self _, same, .inl rfl⟩

end Vault

open Vault in
/-- On a grid without unknown texts there is a result: nothing if no moves solve the vault, and
otherwise, of those that do, the first by their number and then by their order. -/
theorem shortestWalk_first (grid : Grid) (known : grid.Known) (start goal : Position)
    (initial wanted steps : Int) :
    let v : Vault := { grid, start, initial, goal, wanted }
    ∃ result, shortestWalk grid (some start) (some goal) (some initial) wanted steps = .ok result ∧
      (result = none ↔ ∀ moves, ¬v.Valid steps moves) ∧
      ∀ moves, result = some moves → v.Valid steps moves ∧
        ∀ other, v.Valid steps other → other = moves ∨ List.Shortlex Move.Before moves other := by
  intro v
  have closed : ∀ moves, v.Opens moves → 0 < moves.length := by
    rintro _ ⟨-, -⟩
    simp
  obtain ⟨result, searched, none_opens, finds⟩ := v.level_zero.search known closed steps.toNat
  refine ⟨result, searched, ?_, ?_⟩
  · constructor
    · rintro rfl moves valid
      obtain ⟨opens, within⟩ := valid_iff.mp valid
      have long := none_opens rfl moves opens
      omega
    · intro unsolved
      cases result with
      | none => rfl
      | some moves =>
          obtain ⟨opens, within, -⟩ := finds moves rfl
          have moved := closed moves opens
          exact absurd (valid_iff.mpr ⟨opens, by omega⟩) (unsolved moves)
  · rintro moves rfl
    obtain ⟨opens, within, first⟩ := finds moves rfl
    have moved := closed moves opens
    refine ⟨valid_iff.mpr ⟨opens, by omega⟩, ?_⟩
    intro other valid
    rcases first other (valid_iff.mp valid).1 with shorter | ⟨length, rfl | before⟩
    · exact .inr (.of_length_lt shorter)
    · exact .inl rfl
    · exact .inr (.of_lex length before)

/-- A grid of four cells, over which two walks of two moves add its numbers. -/
def cornerGrid : Grid := #[#[.operator "+", .number 3], #[.number 2, .operator "+"]]

theorem cornerGrid_shortestWalk_first :
    let v : Vault :=
      { grid := cornerGrid, start := ⟨1, 0⟩, initial := 2, goal := ⟨0, 1⟩, wanted := 5 }
    v.Valid 2 [.east, .north] ∧
      ∃ moves, shortestWalk cornerGrid (some ⟨1, 0⟩) (some ⟨0, 1⟩) (some 2) 5 2 = .ok (some moves) ∧
        v.Valid 2 moves ∧
        ([.east, .north] = moves ∨ List.Shortlex Move.Before moves [.east, .north]) := by
  intro v
  have east : v.Carries v.departure .east ⟨⟨1, 1⟩, 2, some .plus⟩ :=
    .operator (by rfl) (by decide) rfl
  let between : Walker := ⟨⟨1, 1⟩, 2, some .plus⟩
  have north : v.Carries between .north v.opened :=
    Vault.Carries.number (v := v) (w := between) (m := .north) (n := 3) (by rfl) (by decide) rfl
      (by decide)
  have strolls : v.Strolls [.east] _ := .move .start east (by decide)
  have valid : v.Valid 2 [.east, .north] := Vault.valid_iff.mpr ⟨.last strolls north, by decide⟩
  obtain ⟨result, searched, none_iff, finds⟩ :=
    shortestWalk_first cornerGrid (by decide) ⟨1, 0⟩ ⟨0, 1⟩ 2 5 2
  cases result with
  | none => exact absurd valid (none_iff.mp rfl _)
  | some moves => exact ⟨valid, moves, searched, (finds moves rfl).1, (finds moves rfl).2 _ valid⟩

end WordMachine.Puzzle
