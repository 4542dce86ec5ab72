import Std.Data.HashMap
import WordMachine.Journal

/-!
# The teleporter's function

A recursion on two arguments that a register guards, everything modulo 32768. A search keeps the
values it finds. It goes through a list of waiting keys, the first of which follows from what is
known already or has to wait behind another one. However far the second arguments jump, the steps
come to an end.
-/

namespace WordMachine.Puzzle

def modulus : Nat := 32768

/-- The function for the register value `r`. -/
def teleport (r : Nat) : Nat → Nat → Nat
  | 0, n => (n + 1) % modulus
  | m + 1, 0 => teleport r m r
  | m + 1, n + 1 => teleport r m (teleport r (m + 1) n)

/-- Both arguments of the function. -/
abbrev Key := Nat × Nat

/-- Known values, by both arguments. -/
abbrev Cache := Std.HashMap Key Nat

/-- One cache knows whatever another one does. -/
def Cache.Grows (a b : Cache) : Prop :=
  ∀ (key : Key) (v : Nat), a[key]? = some v → b[key]? = some v

namespace Cache.Grows

variable {a b d : Cache}

theorem refl (a : Cache) : a.Grows a := fun _ _ known => known

theorem trans (first : a.Grows b) (second : b.Grows d) : a.Grows d :=
  fun key v known => second key v (first key v known)

/-- A value that is added takes no other one's place. -/
theorem insert {key : Key} (new : key ∉ a) (v : Nat) : a.Grows (Std.HashMap.insert a key v) := by
  intro other w known
  have ne : key ≠ other := by
    rintro rfl
    rw [Std.HashMap.getElem?_eq_none new] at known
    cases known
  rw [Std.HashMap.getElem?_insert]
  simpa [ne] using known

end Cache.Grows

/-- A search with one register value, and the values it has found. -/
structure Teleporter where
  r : Nat
  cache : Cache := {}

namespace Teleporter

/-- An integer as a word. -/
def toWord (v : Int) : Nat := (v % modulus).toNat

/-- A search that knows nothing yet. -/
def new (r : Int) : Teleporter := { r := toWord r }

/-- What the known values say about a key: its value, or the key that has to be known first. -/
inductive Finding where
  | value (v : Nat)
  | needs (key : Key)

/-- What the known values say about a key that has the value of another one. -/
def sameAs (cache : Cache) (other : Key) : Finding :=
  match cache[other]? with
  | some v => .value v
  | none => .needs other

def look (r : Nat) (cache : Cache) : Key → Finding
  | (0, n) => .value ((n + 1) % modulus)
  | (m + 1, 0) => sameAs cache (m, r)
  | (m + 1, n + 1) =>
      match cache[(m + 1, n)]? with
      | some inner => sameAs cache (m, inner)
      | none => .needs (m + 1, n)

/-- A search at work, with the keys that wait for their values. -/
structure Search extends Teleporter where
  waiting : List Key

namespace Search

/-- The search after a look at the first of the waiting keys, or its end if none waits. -/
def step : Search → Teleporter ⊕ Search
  | ⟨t, []⟩ => .inl t
  | ⟨t, key :: rest⟩ =>
      if key ∈ t.cache then .inr ⟨t, rest⟩
      else
        match look t.r t.cache key with
        | .value v => .inr ⟨{ t with cache := t.cache.insert key v }, rest⟩
        | .needs other => .inr ⟨t, other :: key :: rest⟩

/-- What one step does: the first key is known already, or its value follows, or another key goes
in front of it. -/
inductive Step : Search → Search → Prop where
  | known {t : Teleporter} {key : Key} {rest : List Key} (mem : key ∈ t.cache) :
      Step ⟨t, key :: rest⟩ ⟨t, rest⟩
  | found {t : Teleporter} {key : Key} {rest : List Key} {v : Nat} (new : key ∉ t.cache)
      (value : look t.r t.cache key = .value v) :
      Step ⟨t, key :: rest⟩ ⟨{ t with cache := t.cache.insert key v }, rest⟩
  | needed {t : Teleporter} {key other : Key} {rest : List Key} (new : key ∉ t.cache)
      (needs : look t.r t.cache key = .needs other) :
      Step ⟨t, key :: rest⟩ ⟨t, other :: key :: rest⟩

theorem step_eq_inr_iff {s s' : Search} : s.step = .inr s' ↔ s.Step s' := by
  constructor
  · intro next
    unfold step at next
    split at next
    · cases next
    · next t key rest =>
        split at next
        · next mem => exact Sum.inr.inj next ▸ .known mem
        · next new =>
            split at next
            · next v value => exact Sum.inr.inj next ▸ .found new value
            · next other needs => exact Sum.inr.inj next ▸ .needed new needs
  · intro next
    cases next with
    | known mem => simp only [step, if_pos mem]
    | found new value => simp only [step, if_neg new, value]
    | needed new needs => simp only [step, if_neg new, needs]

theorem step_eq_inl_iff {s : Search} {t : Teleporter} : s.step = .inl t ↔ s = ⟨t, []⟩ := by
  constructor
  · intro last
    unfold step at last
    split at last
    · rw [Sum.inl.inj last]
    · split at last
      · cases last
      · split at last <;> cases last
  · rintro rfl
    rfl

def Follows (s' s : Search) : Prop := s.step = .inr s'

section Termination

variable {r : Nat} {key other : Key} {waiting : List Key} {a b : Cache}

theorem acc_of_step {s s' : Search} (next : s.Step s') (ends : Acc Follows s') :
    Acc Follows s := by
  refine ⟨s, fun t follows => ?_⟩
  obtain rfl := Sum.inr.inj ((step_eq_inr_iff.mpr next).symm.trans follows)
  exact ends

/-- The steps come to an end once a key is known and whatever else became known before. -/
def EndsAfter (r : Nat) (key : Key) (waiting : List Key) (a : Cache) : Prop :=
  ∀ b : Cache, a.Grows b → key ∈ b → Acc Follows ⟨⟨r, b⟩, waiting⟩

theorem EndsAfter.mono (rest : EndsAfter r key waiting a) (grows : a.Grows b) :
    EndsAfter r key waiting b :=
  fun d grows' => rest d (grows.trans grows')

theorem acc_of_mem (mem : key ∈ a) (rest : EndsAfter r key waiting a) :
    Acc Follows ⟨⟨r, a⟩, key :: waiting⟩ :=
  acc_of_step (.known mem) (rest a (.refl a) mem)

theorem acc_of_value {v : Nat} (new : key ∉ a) (value : look r a key = .value v)
    (rest : EndsAfter r key waiting a) : Acc Follows ⟨⟨r, a⟩, key :: waiting⟩ :=
  acc_of_step (.found new value) (rest _ (.insert new v) Std.HashMap.mem_insert_self)

/-- Whatever waits behind a key, it does not keep the steps from coming to an end. -/
def Passable (r : Nat) (key : Key) : Prop :=
  ∀ waiting a, EndsAfter r key waiting a → Acc Follows ⟨⟨r, a⟩, key :: waiting⟩

theorem acc_of_sameAs (below : Passable r other)
    (same : ∀ b, a.Grows b → look r b key = sameAs b other) (rest : EndsAfter r key waiting a) :
    Acc Follows ⟨⟨r, a⟩, key :: waiting⟩ := by
  have ready : EndsAfter r other (key :: waiting) a := by
    intro b grows known
    by_cases mem : key ∈ b
    · exact acc_of_mem mem (rest.mono grows)
    · have value : look r b key = .value b[other] := by
        rw [same b grows, sameAs, Std.HashMap.getElem?_eq_some_getElem known]
      exact acc_of_value mem value (rest.mono grows)
  by_cases known : other ∈ a
  · exact ready a (.refl a) known
  by_cases mem : key ∈ a
  · exact acc_of_mem mem rest
  · have needs : look r a key = .needs other := by
      rw [same a (.refl a), sameAs, Std.HashMap.getElem?_eq_none known]
    exact acc_of_step (.needed mem needs) (below (key :: waiting) a ready)

/-- The induction is on the first argument and, on one level, on the second: a key needs the one
before it on its own level, and some key on the level below. -/
theorem passable (r m n : Nat) : Passable r (m, n) := by
  induction m generalizing n with
  | zero =>
      intro waiting a rest
      by_cases mem : (0, n) ∈ a
      · exact acc_of_mem mem rest
      · exact acc_of_value mem rfl rest
  | succ m level_below =>
      induction n with
      | zero => exact fun waiting a => acc_of_sameAs (level_below r) fun _ _ => rfl
      | succ n key_before =>
          intro waiting a rest
          have ready : EndsAfter r (m + 1, n) ((m + 1, n + 1) :: waiting) a := by
            intro b grows known
            have inner := Std.HashMap.getElem?_eq_some_getElem known
            refine acc_of_sameAs (level_below b[(m + 1, n)]) ?_ (rest.mono grows)
            intro d grows'
            rw [look, grows' _ _ inner]
          by_cases known : (m + 1, n) ∈ a
          · exact ready a (.refl a) known
          by_cases mem : (m + 1, n + 1) ∈ a
          · exact acc_of_mem mem rest
          · have needs : look r a (m + 1, n + 1) = .needs (m + 1, n) := by
              rw [look, Std.HashMap.getElem?_eq_none known]
            exact acc_of_step (.needed mem needs) (key_before _ a ready)

/-- Whatever waits and whatever is known, the steps come to an end. -/
theorem acc_follows (s : Search) : Acc Follows s := by
  obtain ⟨⟨r, a⟩, waiting⟩ := s
  induction waiting generalizing a with
  | nil => exact ⟨_, fun s' follows => nomatch follows⟩
  | cons key rest ih =>
      obtain ⟨m, n⟩ := key
      exact passable r m n rest a fun b _ _ => ih b

end Termination

instance : WellFoundedRelation Search := ⟨Follows, ⟨acc_follows⟩⟩

/-- What is known when no key waits any more. -/
def finish (s : Search) : Teleporter :=
  match _next : s.step with
  | .inl t => t
  | .inr s' => s'.finish
termination_by s
decreasing_by exact _next

/-- A key that waits does so until it is known. -/
theorem Step.keeps {s s' : Search} (next : s.Step s') {key : Key}
    (wanted : key ∈ s.waiting ∨ key ∈ s.cache) : key ∈ s'.waiting ∨ key ∈ s'.cache := by
  cases next with
  | known mem =>
      rw [List.mem_cons] at wanted
      rcases wanted with (rfl | later) | known
      · exact .inr mem
      · exact .inl later
      · exact .inr known
  | found new value =>
      rw [List.mem_cons] at wanted
      rcases wanted with (rfl | later) | known
      · exact .inr Std.HashMap.mem_insert_self
      · exact .inl later
      · exact .inr (Std.HashMap.mem_insert.mpr (.inr known))
  | needed new needs => exact wanted.imp_left (List.mem_cons_of_mem _)

theorem mem_finish {s : Search} {key : Key} (wanted : key ∈ s.waiting ∨ key ∈ s.cache) :
    key ∈ s.finish.cache := by
  fun_induction finish s with
  | case1 s t last =>
      obtain rfl := step_eq_inl_iff.mp last
      simpa using wanted
  | case2 s s' next ih => exact ih ((step_eq_inr_iff.mp next).keeps wanted)

end Search

/-- A value of the function; the search knows more afterwards. -/
def evaluate (t : Teleporter) (m : Nat) (n : Int) : Nat × Teleporter :=
  let asked : Search := { t with waiting := [(m, toWord n)] }
  let found := asked.finish
  have known : (m, toWord n) ∈ found.cache := Search.mem_finish (.inl List.mem_cons_self)
  (found.cache.get (m, toWord n) known, found)

def clear (t : Teleporter) : Teleporter := { t with cache := {} }

end Teleporter

/-- The register values that are tried unless others are given. -/
def allRegisterValues : List Int := (List.range (modulus - 1)).map fun n => (n + 1 : Nat)

/-- The first of the candidates for which the function takes the target value, and what is logged
about it. -/
def registerYielding (target : Int) (m : Nat) (n : Int) (candidates : List Int) :
    Option Int × List Record :=
  match candidates.find? fun r => ((Teleporter.new r).evaluate m n).1 == target with
  | none => (none, [])
  | some r => (some r, [⟨.info, .puzzles, s!"register value {r} yields {target}"⟩])

end WordMachine.Puzzle
