import Mathlib.Logic.Relation
import WordMachine.Puzzle.Teleporter

/-!
# Values of the teleporter's function

A search knows nothing but values of the function, since each value it adds follows from known ones
by the recursion. So it answers every request with the value of the function, whatever it was asked
before and whether or not it was made to forget.
-/

namespace WordMachine.Puzzle

theorem teleport_lt (r m n : Nat) : teleport r m n < modulus := by
  fun_induction teleport r m n with
  | case1 n => exact Nat.mod_lt _ (by decide)
  | case2 m below => exact below
  | case3 m n before below => exact below

/-- All known values are values of the function. -/
def Cache.Sound (r : Nat) (a : Cache) : Prop :=
  ∀ (key : Key) (v : Nat), a[key]? = some v → v = teleport r key.1 key.2

namespace Cache.Sound

theorem empty (r : Nat) : Sound r {} := by
  intro key v known
  rw [Std.HashMap.getElem?_empty] at known
  cases known

theorem insert {r : Nat} {a : Cache} (sound : a.Sound r) (key : Key) :
    Sound r (Std.HashMap.insert a key (teleport r key.1 key.2)) := by
  intro other v known
  rw [Std.HashMap.getElem?_insert] at known
  split at known
  · next same =>
      obtain rfl : key = other := eq_of_beq same
      exact (Option.some.inj known).symm
  · exact sound other v known

end Cache.Sound

namespace Teleporter

section

variable {r : Nat} {a : Cache} {key other : Key} {v : Nat}

theorem eq_of_sameAs (sound : a.Sound r) (value : sameAs a other = .value v) :
    v = teleport r other.1 other.2 := by
  unfold sameAs at value
  split at value
  · next w known =>
      obtain rfl := Finding.value.inj value
      exact sound other w known
  · cases value

/-- A value that follows from values of the function is one. -/
theorem eq_of_look (sound : a.Sound r) (value : look r a key = .value v) :
    v = teleport r key.1 key.2 := by
  rcases key with ⟨_ | m, _ | n⟩
  · rw [teleport]
    exact (Finding.value.inj value).symm
  · rw [teleport]
    exact (Finding.value.inj value).symm
  · rw [teleport]
    exact eq_of_sameAs sound value
  · rw [look] at value
    split at value
    · next inner known =>
        obtain rfl := sound (m + 1, n) inner known
        rw [teleport]
        exact eq_of_sameAs sound value
    · cases value

end

namespace Search

variable {s s' : Search}

theorem Step.r_eq (next : s.Step s') : s'.r = s.r := by
  cases next <;> rfl

theorem Step.sound (next : s.Step s') (sound : s.cache.Sound s.r) : s'.cache.Sound s'.r := by
  cases next with
  | known mem => exact sound
  | @found t key rest v new value =>
      obtain rfl := eq_of_look sound value
      exact sound.insert key
  | needed new needs => exact sound

theorem r_finish (s : Search) : s.finish.r = s.r := by
  fun_induction finish s with
  | case1 s t last =>
      obtain rfl := step_eq_inl_iff.mp last
      rfl
  | case2 s s' next ih => exact ih.trans (step_eq_inr_iff.mp next).r_eq

theorem sound_finish (sound : s.cache.Sound s.r) : s.finish.cache.Sound s.finish.r := by
  fun_induction finish s with
  | case1 s t last =>
      obtain rfl := step_eq_inl_iff.mp last
      exact sound
  | case2 s s' next ih => exact ih ((step_eq_inr_iff.mp next).sound sound)

/-- The steps lead to where no key waits any more. -/
theorem leads_finish (s : Search) :
    Relation.ReflTransGen (fun s s' => s.step = .inr s') s ⟨s.finish, []⟩ := by
  fun_induction finish s with
  | case1 s t last => rw [step_eq_inl_iff.mp last]
  | case2 s s' next ih => exact .head next ih

end Search

/-- The searches for one register value: a new one, and what becomes of one when it is asked for a
value or made to forget. -/
inductive Reached (r : Int) : Teleporter → Prop where
  | new : Reached r (new r)
  | evaluated {t : Teleporter} (h : Reached r t) (m : Nat) (n : Int) : Reached r (t.evaluate m n).2
  | cleared {t : Teleporter} (h : Reached r t) : Reached r t.clear

namespace Reached

variable {r : Int} {t : Teleporter}

theorem r_eq (h : Reached r t) : t.r = toWord r := by
  induction h with
  | new => rfl
  | @evaluated t _ m n ih => exact (Search.r_finish { t with waiting := [(m, toWord n)] }).trans ih
  | cleared _ ih => exact ih

theorem sound (h : Reached r t) : t.cache.Sound t.r := by
  induction h with
  | new => exact .empty _
  | @evaluated t _ m n ih =>
      exact Search.sound_finish (s := { t with waiting := [(m, toWord n)] }) ih
  | cleared => exact .empty _

end Reached

theorem evaluate_fst {r : Int} {t : Teleporter} (h : Reached r t) (m : Nat) (n : Int) :
    (t.evaluate m n).1 = teleport (toWord r) m (toWord n) := by
  have sound := (h.evaluated m n).sound
  rw [(h.evaluated m n).r_eq] at sound
  exact sound (m, toWord n) _ (Std.HashMap.getElem?_eq_some_getElem _)

/-- Whatever a search was asked before, and even if it had to forget, its steps from one waiting key
lead to where none waits, and there the key has the value of the function, which is a word. -/
theorem evaluate_eq_teleport {r : Int} {t : Teleporter} (h : Reached r t) (m : Nat) (n : Int) :
    (∃ (last : Search) (t' : Teleporter),
      Relation.ReflTransGen (fun s s' => s.step = .inr s') ⟨t, [(m, toWord n)]⟩ last ∧
      last.step = .inl t' ∧
      t'.cache[(m, toWord n)]? = some (teleport (toWord r) m (toWord n)) ∧
      t.evaluate m n = (teleport (toWord r) m (toWord n), t')) ∧
    (t.evaluate m n).1 < 32768 ∧
    ∀ t', Reached r t' → (t'.evaluate m n).1 = (t.evaluate m n).1 := by
  have value := evaluate_fst h m n
  refine ⟨⟨_, _, Search.leads_finish ⟨t, [(m, toWord n)]⟩, rfl, ?_, Prod.ext value rfl⟩, ?_, ?_⟩
  · rw [← value]
    exact Std.HashMap.getElem?_eq_some_getElem _
  · rw [value]
    exact teleport_lt _ m _
  · intro t' h'
    rw [value, evaluate_fst h' m n]

/-- A search for the register value 1 that was asked twice and made to forget in between. -/
def busy : Teleporter := (((new (-32767)).evaluate 1 5).2.clear.evaluate 2 40000).2

theorem busy_evaluate_eq_teleport :
    Reached (-32767) busy ∧ (busy.evaluate 2 (-32765)).1 = 9 := by
  have reached : Reached (-32767) busy := ((Reached.new.evaluated 1 5).cleared).evaluated 2 40000
  obtain ⟨⟨last, t, -, -, -, value⟩, -, -⟩ := evaluate_eq_teleport reached 2 (-32765)
  have answer : (busy.evaluate 2 (-32765)).1 = teleport 1 2 3 := by
    rw [value]
    rfl
  exact ⟨reached, answer.trans (by simp [teleport, modulus])⟩

end Teleporter

end WordMachine.Puzzle
