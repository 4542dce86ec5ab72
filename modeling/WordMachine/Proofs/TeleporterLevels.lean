import Mathlib.Algebra.Ring.GeomSum
import Mathlib.Algebra.Group.Action.Defs
import Mathlib.Data.Nat.ModEq
import Mathlib.Tactic.Ring
import WordMachine.Proofs.TeleporterValues

/-!
# Levels of the teleporter's function

On its lowest level the function is an affine map modulo 32768. Above a level that is one, the
function goes on from each argument to the next by that map, which gives the three levels that
follow in closed form. The second of them says which register value leads to a given target.
-/

namespace WordMachine.Puzzle

/-- On this level the function is an affine map. -/
def AffineOn (r m a b : Nat) : Prop := ∀ n, teleport r m n ≡ a * n + b [MOD modulus]

variable {r m a b : Nat}

theorem affineOn_zero (r : Nat) : AffineOn r 0 1 1 := by
  intro n
  rw [teleport, one_mul]
  exact Nat.mod_modEq _ _

/-- The map is applied once to the register value and then once for each step of the argument. -/
theorem AffineOn.above (level : AffineOn r m a b) (n : Nat) :
    teleport r (m + 1) n ≡
      a ^ n * (a * r + b) + b * ∑ i ∈ Finset.range n, a ^ i [MOD modulus] := by
  induction n with
  | zero =>
      rw [teleport]
      simpa using level r
  | succ n before =>
      -- The sum takes the step that `geom_sum_succ` describes: times `a`, plus one.
      calc teleport r (m + 1) (n + 1)
          = teleport r m (teleport r (m + 1) n) := by rw [teleport]
        _ ≡ a * teleport r (m + 1) n + b [MOD modulus] := level _
        _ ≡ a * (a ^ n * (a * r + b) + b * ∑ i ∈ Finset.range n, a ^ i) + b [MOD modulus] :=
            (before.mul_left a).add_right b
        _ = a ^ (n + 1) * (a * r + b) + b * ∑ i ∈ Finset.range (n + 1), a ^ i := by
            rw [geom_sum_succ, pow_succ]
            ring

/-- Above a level that only adds, a step of the argument adds what that level adds. -/
theorem AffineOn.above_shift (level : AffineOn r m 1 b) : AffineOn r (m + 1) b (r + b) := by
  intro n
  have value := level.above n
  simp only [one_pow, Finset.sum_const, Finset.card_range, smul_eq_mul, one_mul, mul_one] at value
  rwa [add_comm (r + b)] at value

theorem affineOn_one (r : Nat) : AffineOn r 1 1 (r + 1) := (affineOn_zero r).above_shift

theorem affineOn_two (r : Nat) : AffineOn r 2 (r + 1) (r + (r + 1)) := (affineOn_one r).above_shift

/-- A value of the function is less than the modulus, and so the remainder of what it is congruent
to. -/
theorem teleport_eq_of_modEq {n v : Nat} (same : teleport r m n ≡ v [MOD modulus]) :
    teleport r m n = v % 32768 := by
  rw [← Nat.mod_eq_of_lt (teleport_lt r m n)]
  exact same

theorem mem_allRegisterValues {r : Int} : r ∈ allRegisterValues ↔ 1 ≤ r ∧ r ≤ 32767 := by
  unfold allRegisterValues modulus
  simp only [List.mem_map, List.mem_range]
  constructor
  · rintro ⟨k, below, rfl⟩
    omega
  · rintro ⟨least, most⟩
    exact ⟨(r - 1).toNat, by omega, by omega⟩

namespace Teleporter

/-- On level one a register value leads to the target if it is what the argument and one more leave
to the target. -/
theorem evaluate_one_eq_iff {target : Int} (least : 0 ≤ target) (most : target ≤ 32767)
    (r n : Int) :
    (((new r).evaluate 1 n).1 : Int) = target ↔ r % 32768 = (target - n - 1) % 32768 := by
  have value := teleport_eq_of_modEq (affineOn_one (toWord r) (toWord n))
  rw [evaluate_fst .new, value]
  unfold toWord modulus
  omega

theorem registerYielding_fst (target : Int) (m : Nat) (n : Int) (candidates : List Int) :
    (registerYielding target m n candidates).1 =
      candidates.find? fun r => ((new r).evaluate m n).1 == target := by
  unfold registerYielding
  split
  · next none_found => exact none_found.symm
  · next r found => exact found.symm

/-- What is found on level one are the register values that lead to the target. -/
theorem registerYielding_one_eq_some_iff {target found n : Int} (least : 0 ≤ target)
    (most : target ≤ 32767) :
    (registerYielding target 1 n allRegisterValues).1 = some found ↔
      1 ≤ found ∧ found ≤ 32767 ∧ found % 32768 = (target - n - 1) % 32768 := by
  have leads (r : Int) : (((new r).evaluate 1 n).1 == target) = true ↔
      r % 32768 = (target - n - 1) % 32768 := by
    rw [beq_iff_eq]
    exact evaluate_one_eq_iff least most r n
  rw [registerYielding_fst]
  constructor
  · intro first
    have candidate := mem_allRegisterValues.mp (List.mem_of_find?_eq_some first)
    have led := List.find?_some first
    exact ⟨candidate.1, candidate.2, (leads found).mp led⟩
  · rintro ⟨lower, upper, same⟩
    have candidate := mem_allRegisterValues.mpr ⟨lower, upper⟩
    cases searched : allRegisterValues.find? fun r => ((new r).evaluate 1 n).1 == target with
    | none => exact absurd ((leads found).mpr same) (List.find?_eq_none.mp searched found candidate)
    | some other =>
        -- No two candidates have the same remainder, so the first that leads there is the only one.
        have bounds := mem_allRegisterValues.mp (List.mem_of_find?_eq_some searched)
        have led := List.find?_some searched
        have same' := (leads other).mp led
        rw [show other = found by omega]

/-- Whatever a search was asked before, its answers on the first three levels above the lowest are
sums and powers modulo 32768. On the first of them every target but one has exactly one register
value that leads to it, and that one is found. -/
theorem evaluate_closed_forms {r : Int} {t : Teleporter} (h : Reached r t) (n : Int) :
    (t.evaluate 1 n).1 = (toWord n + toWord r + 1) % 32768 ∧
    (t.evaluate 2 n).1 = (2 * toWord r + 1 + toWord n * (toWord r + 1)) % 32768 ∧
    (t.evaluate 3 n).1 =
      ((toWord r + 1) ^ toWord n * (toWord r ^ 2 + 3 * toWord r + 1) +
        (2 * toWord r + 1) * ∑ i ∈ Finset.range (toWord n), (toWord r + 1) ^ i) % 32768 ∧
    ∀ target : Int, 0 ≤ target → target ≤ 32767 →
      ((target - n - 1) % 32768 = 0 → (registerYielding target 1 n allRegisterValues).1 = none) ∧
      ((target - n - 1) % 32768 ≠ 0 → ∃ found : Int,
        (registerYielding target 1 n allRegisterValues).1 = some found ∧
        (1 ≤ found ∧ found ≤ 32767 ∧ found % 32768 = (target - n - 1) % 32768) ∧
        ∀ other : Int, 1 ≤ other → other ≤ 32767 →
          other % 32768 = (target - n - 1) % 32768 → other = found) := by
  obtain ⟨one, two, three⟩ :
      teleport (toWord r) 1 (toWord n) = (toWord n + toWord r + 1) % 32768 ∧
      teleport (toWord r) 2 (toWord n) =
        (2 * toWord r + 1 + toWord n * (toWord r + 1)) % 32768 ∧
      teleport (toWord r) 3 (toWord n) =
        ((toWord r + 1) ^ toWord n * (toWord r ^ 2 + 3 * toWord r + 1) +
          (2 * toWord r + 1) * ∑ i ∈ Finset.range (toWord n), (toWord r + 1) ^ i) % 32768 := by
    generalize toWord r = R, toWord n = N
    refine ⟨?_, ?_, ?_⟩
    · rw [teleport_eq_of_modEq (affineOn_one R N)]
      exact congrArg (· % 32768) (by ring)
    · rw [teleport_eq_of_modEq (affineOn_two R N)]
      exact congrArg (· % 32768) (by ring)
    · rw [teleport_eq_of_modEq ((affineOn_two R).above N)]
      exact congrArg (· % 32768) (by ring)
  rw [evaluate_fst h, evaluate_fst h, evaluate_fst h]
  refine ⟨one, two, three, fun target least most => ⟨?_, ?_⟩⟩
  · intro zero
    rw [Option.eq_none_iff_forall_ne_some]
    intro found first
    have := (registerYielding_one_eq_some_iff least most).mp first
    omega
  · intro nonzero
    refine ⟨(target - n - 1) % 32768, ?_, ⟨by omega, by omega, by omega⟩, ?_⟩
    · exact (registerYielding_one_eq_some_iff least most).mpr ⟨by omega, by omega, by omega⟩
    · intro other lower upper same
      omega

theorem busy_closed_forms :
    (Reached (-32767) busy ∧
      (0 : Int) ≤ 4 ∧ (4 : Int) ≤ 32767 ∧ (0 : Int) ≤ 5 ∧ (5 : Int) ≤ 32767) ∧
      (busy.evaluate 1 32771).1 = 5 ∧ (busy.evaluate 2 32771).1 = 9 ∧
      (busy.evaluate 3 32771).1 = 61 ∧
      (registerYielding 4 1 32771 allRegisterValues).1 = none ∧
      (registerYielding 5 1 32771 allRegisterValues).1 = some 1 := by
  have reached : Reached (-32767) busy := ((Reached.new.evaluated 1 5).cleared).evaluated 2 40000
  obtain ⟨one, two, three, search⟩ := evaluate_closed_forms reached 32771
  refine ⟨⟨reached, by decide⟩, ?_, ?_, ?_, ?_, ?_⟩
  · rw [one]
    rfl
  · rw [two]
    rfl
  · rw [three]
    rfl
  · exact (search 4 (by decide) (by decide)).1 (by decide)
  · obtain ⟨found, first, -, only⟩ := (search 5 (by decide) (by decide)).2 (by decide)
    rw [first, only 1 (by decide) (by decide) (by decide)]

end Teleporter

end WordMachine.Puzzle
