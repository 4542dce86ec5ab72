import WordMachine.Proofs.HistoryFile

/-!
# Histories opened again

A history that is opened again on its file remembers what the one before it did, as long as no line
boundary stands within a remembered line and the first line that is stored stands behind an ended
one, or the file is written afresh with it. In all other cases lines are merged or cut.
-/

namespace WordMachine.History

open Text (Raw)

/-- A history that is opened on the same path, with the same limit, remembers the same. -/
def Restored (path : Path) (homes : Homes) (limit : Nat) (h : Host) (s : History) : Prop :=
  ∃ h' s', openAt h path limit homes = .ok (h', s') ∧ s'.entries = s.entries

/-- Histories are restored before, between and after lines that are appended. -/
def RestoredThrough (path : Path) (homes : Homes) (limit : Nat) (h : Host) (s : History)
    (lines : List Raw) : Prop :=
  ∀ front, front <+: lines →
    Restored path homes limit (s.extend h front).1 (s.extend h front).2.1

/-- Lines that are read back as they were typed behind a text that is there already, which may
hold as many lines as the limit. -/
def Restorable (limit : Nat) (text : List Char) (entries lines : List Raw) : Prop :=
  (∀ line ∈ lines, Raw.Whole (Raw.trim line)) ∧
    (Ended text ∨ limit ≤ (parse text).length ∨
      ∀ line ∈ lines, remember limit entries line = none)

/-- All lines can be stored: nothing is complained about, and no line is refused. -/
structure Stores (s : History) (h : Host) (lines : List Raw) : Prop where
  quiet : (s.extend h lines).1.journal = h.journal
  taken : (s.extend h lines).2.2 = none

section Journal

variable (s : History) (h : Host) (line : Raw) (lines : List Raw)

theorem journal_append : (s.append h line).1.journal = h.journal ∨
    h.journal.size < (s.append h line).1.journal.size := by
  have journal_put (s : History) (files : FileTree) (path : Path)
      (write : FileTree → Path → Bytes → Except FileError FileTree) (text : Raw) (n : Nat) :
      (s.put { h with files } path write text n).1.journal = h.journal ∨
        h.journal.size < (s.put { h with files } path write text n).1.journal.size := by
    unfold put
    split <;> split
    · exact .inl rfl
    · exact .inr (Host.size_journal_lt_log _ _ _ _)
    · exact .inl rfl
    · exact .inr (Host.size_journal_lt_log _ _ _ _)
  unfold append
  split
  · exact .inl rfl
  · unfold store
    split
    · exact .inl rfl
    · split
      · exact .inr (Host.size_journal_lt_log _ _ _ _)
      · split
        · exact journal_put _ _ _ _ _ _
        · exact journal_put _ _ _ _ _ _

theorem size_append : h.journal.size ≤ (s.append h line).1.journal.size := by
  obtain same | more := journal_append s h line
  · rw [same]
  · exact Nat.le_of_lt more

theorem size_extend : h.journal.size ≤ (s.extend h lines).1.journal.size := by
  induction lines generalizing s h with
  | nil => exact Nat.le_refl _
  | cons line lines ih =>
      have first := size_append s h line
      cases outcome : (s.append h line).2.2 with
      | none =>
          rw [extend_cons h lines outcome]
          exact Nat.le_trans first (ih (s.append h line).2.1 (s.append h line).1)
      | some e =>
          rw [extend_cons_of_refused h lines outcome]
          exact first

end Journal

/-- When all lines are stored, each of them is. -/
theorem Stores.cons {s : History} {h : Host} {line : Raw} {lines : List Raw}
    (stores : s.Stores h (line :: lines)) :
    (s.append h line).1.journal = h.journal ∧ (s.append h line).2.2 = none ∧
      (s.append h line).2.1.Stores (s.append h line).1 lines := by
  obtain ⟨quiet, taken⟩ := stores
  cases outcome : (s.append h line).2.2 with
  | some e =>
      rw [extend_cons_of_refused h lines outcome, outcome] at taken
      cases taken
  | none =>
      rw [extend_cons h lines outcome] at quiet taken
      obtain same | more := journal_append s h line
      · exact ⟨same, rfl, quiet.trans same.symm, taken⟩
      · have later := size_extend (s.append h line).2.1 (s.append h line).1 lines
        rw [quiet] at later
        exact absurd later (Nat.not_le.mpr more)

variable {s : History} {h : Host} {path q : Path} {homes : Homes} {text : List Char}
  {raw : Raw} {line : String} {lines new : List Raw} {limit : Nat}

theorem Follows.restored (follows : s.Follows h q text) (opens : OpensAt path homes q) :
    Restored path homes s.limit h s := by
  obtain ⟨h', s', opened, placed⟩ := opens h s.limit
  obtain ⟨again, -, limited⟩ := follows_openAt opened placed follows.positive follows.holds
  exact ⟨h', s', opened, by rw [again.entries, limited, follows.entries]⟩

theorem Restored.entries_eq (restored : Restored path homes limit h s)
    (opens : OpensAt path homes q) (positive : 1 ≤ limit) (holds : h.files.Holds q text) :
    s.entries = (latest limit (parse text)).map Raw.ofString := by
  obtain ⟨h', s', opened, same⟩ := restored
  obtain ⟨again, -, limited⟩ := follows_openAt opened (opens.path_eq opened) positive holds
  rw [← same, again.entries, limited]

theorem tidy_of_mem_latest (mem : line ∈ latest limit (parse text)) : Tidy line :=
  tidy_of_mem_parse (List.mem_of_mem_drop mem)

/-- A line that was forgotten is blank or was read of the file. -/
theorem Follows.whole_of_forgotten (follows : s.Follows h q text)
    (forgotten : remember s.limit s.entries raw = none) : Raw.Whole (Raw.trim raw) := by
  obtain blank | last := remember_eq_none_iff.mp forgotten
  · rw [blank]
    exact List.forall_mem_nil _
  · have mem := List.mem_of_getLast? last
    rw [follows.entries] at mem
    obtain ⟨line, stored, is⟩ := List.mem_map.mp mem
    rw [← is, Raw.whole_ofString]
    exact (tidy_of_mem_latest stored).whole

theorem restoredThrough_cons (taken : (s.append h raw).2.2 = none) :
    RestoredThrough path homes limit h s (raw :: lines) ↔
      Restored path homes limit h s ∧
        RestoredThrough path homes limit (s.append h raw).1 (s.append h raw).2.1 lines := by
  constructor
  · intro all
    have here := all [] List.nil_prefix
    rw [extend_nil] at here
    refine ⟨here, fun front short => ?_⟩
    rw [← extend_cons h front taken]
    exact all (raw :: front) (List.cons_prefix_cons.mpr ⟨rfl, short⟩)
  · intro ⟨here, later⟩ front short
    obtain rfl | ⟨front, rfl, shorter⟩ := List.prefix_cons_iff.mp short
    · rw [extend_nil]
      exact here
    · rw [extend_cons h front taken]
      exact later front shorter

theorem restorable_of_ended (ended : Ended text) (entries : List Raw) :
    Restorable limit text entries lines ↔ ∀ line ∈ lines, Raw.Whole (Raw.trim line) :=
  and_iff_left (.inl ended)

theorem restorable_cons_of_forgotten {entries : List Raw}
    (forgotten : remember limit entries raw = none) (whole : Raw.Whole (Raw.trim raw)) :
    Restorable limit text entries (raw :: lines) ↔ Restorable limit text entries lines := by
  rw [Restorable, Restorable, List.forall_mem_cons, List.forall_mem_cons, and_iff_right whole,
    and_iff_right forgotten]

theorem restorable_cons_of_remembered {entries : List Raw}
    (remembered : remember limit entries raw = some new) :
    Restorable limit text entries (raw :: lines) ↔
      (Raw.Whole (Raw.trim raw) ∧ (Ended text ∨ limit ≤ (parse text).length)) ∧
        ∀ line ∈ lines, Raw.Whole (Raw.trim line) := by
  have some_kept : ¬∀ other ∈ raw :: lines, remember limit entries other = none := by
    intro none
    rw [none raw List.mem_cons_self] at remembered
    cases remembered
  rw [Restorable, List.forall_mem_cons, or_iff_left some_kept, and_right_comm]

/-- A line that is restored is whole, and no other line has been put in front of it. -/
theorem Follows.whole_of_restored (follows : s.Follows h q text) (opens : OpensAt path homes q)
    (remembered : remember s.limit s.entries raw = some new)
    (quiet : (s.append h raw).1.journal = h.journal) (taken : (s.append h raw).2.2 = none)
    (restored : Restored path homes s.limit (s.append h raw).1 (s.append h raw).2.1) :
    Raw.Whole (Raw.trim raw) ∧ (Ended text ∨ s.limit ≤ (parse text).length) := by
  obtain ⟨line, trimmed, reads, strings, known, -⟩ := follows.append remembered quiet taken
  have same := restored.entries_eq opens follows.positive (.inl reads)
  rw [known, strings, List.map_inj_right fun _ _ is => Raw.ofString_inj.mp is] at same
  have last : line ∈ latest s.limit (parse text ++ [line]) := by
    apply List.mem_of_getLast?
    rw [getLast?_latest follows.positive, List.getLast?_concat]
  have tidy : Tidy line := tidy_of_mem_latest (same ▸ last)
  rw [trimmed, Raw.whole_ofString]
  refine ⟨tidy.whole, ?_⟩
  by_cases full : s.limit ≤ (parse text).length
  · exact .inr full
  · refine .inl ?_
    by_contra unfinished
    have merged := length_parse_append_line unfinished tidy
    have size := congrArg List.length same
    rw [length_latest, length_latest, storedText, if_neg full, merged, List.length_append,
      List.length_singleton] at size
    omega

/-- Histories are restored at every line exactly if the lines are restorable: by induction on the
lines, of which those that are forgotten change nothing, and the first that is remembered leaves a
text whose last line is ended. -/
theorem Follows.restoredThrough_iff (follows : s.Follows h q text) (opens : OpensAt path homes q)
    (stores : s.Stores h lines) :
    RestoredThrough path homes s.limit h s lines ↔ Restorable s.limit text s.entries lines := by
  have here := follows.restored opens
  induction lines generalizing s h text with
  | nil =>
      refine ⟨fun _ => ⟨by simp, .inr (.inr (by simp))⟩, fun _ front short => ?_⟩
      rw [List.prefix_nil.mp short, extend_nil]
      exact here
  | cons raw lines ih =>
      obtain ⟨quiet, taken, stores_later⟩ := stores.cons
      rw [restoredThrough_cons taken, and_iff_right here]
      cases step : remember s.limit s.entries raw with
      | none =>
          rw [append_of_forgotten h step] at stores_later ⊢
          rw [restorable_cons_of_forgotten step (follows.whole_of_forgotten step)]
          exact ih follows stores_later here
      | some new =>
          have later (kept : Raw.Whole (Raw.trim raw) ∧
              (Ended text ∨ s.limit ≤ (parse text).length)) :
              RestoredThrough path homes s.limit (s.append h raw).1 (s.append h raw).2.1 lines ↔
                ∀ line ∈ lines, Raw.Whole (Raw.trim line) := by
            obtain ⟨line, -, -, -, next⟩ :=
              follows.append_whole step quiet taken kept.1 kept.2
            have iff := ih next stores_later (next.restored opens)
            rwa [limit_append, restorable_of_ended (ended_storedText _ _ _ _)] at iff
          rw [restorable_cons_of_remembered step]
          constructor
          · intro all
            have first := all [] List.nil_prefix
            rw [extend_nil] at first
            have kept := follows.whole_of_restored opens step quiet taken first
            exact ⟨kept, (later kept).mp all⟩
          · intro ⟨kept, whole⟩
            exact (later kept).mpr whole

/-- Where all lines can be stored, so that nothing is complained about or refused, a history that is
opened on the same path with the same limit after any of them remembers what the one that took them
does, if and only if the lines are restorable. -/
theorem restored_iff_restorable {h h₀ : Host} {s : History} {path q : Path} {homes : Homes}
    {limit : Option Int} {text : List Char} {lines : List Raw}
    (opened : openAt h path (capacity limit) homes = .ok (h₀, s)) (placed : s.path = some q)
    (holds : h.files.Holds q text) (stores : s.Stores h₀ lines) :
    RestoredThrough path homes (capacity limit) h₀ s lines ↔
      Restorable (capacity limit) text s.entries lines := by
  obtain ⟨follows, -, limited⟩ := follows_openAt opened placed (one_le_capacity limit) holds
  rw [← limited]
  exact follows.restoredThrough_iff (opensAt_of_openAt opened placed) stores

/-- The path of a file. -/
def shelf : Path := { root := "/", parts := ["lines"] }

/-- The file there, with a word in it and some bytes behind it. -/
def shelved (more : Bytes) : Host where
  files := { nodes := [(["lines"], .file ([108, 111, 111, 107] ++ more))] }

/-- A history with lines of characters, as many as there are in the file. -/
def onShelf (texts : List String) (count : Nat) : History :=
  ⟨shelf, 5, texts.map Raw.ofString, count⟩

theorem shelved_append (more : Bytes) :
    append (onShelf ["look"] 1) (shelved more) (Raw.ofString "north") =
      (shelved (more ++ [110, 111, 114, 116, 104, 10]), onShelf ["look", "north"] 2, none) := by
  have remembered : remember 5 (["look"].map Raw.ofString) (Raw.ofString "north") =
      some (["look", "north"].map Raw.ofString) := by decide +kernel
  have bytes : Raw.encode (terminated (Raw.trim (Raw.ofString "north"))) =
      .ok [110, 111, 114, 116, 104, 10] := by decide +kernel
  have above : (shelved more).files.makeDirectories shelf.parent = ((shelved more).files, none) :=
    FileTree.makeDirectories_of_directory rfl rfl
  rw [append_of_remembered _ remembered, store]
  dsimp only [onShelf]
  rw [above]
  simp only [put, bytes]
  rfl

theorem shelved_restored :
    openAt (shelved [10]) shelf (capacity (some 5)) (.minimal {}) =
        .ok (shelved [10], onShelf ["look"] 1) ∧
      RestoredThrough shelf (.minimal {}) (capacity (some 5)) (shelved [10]) (onShelf ["look"] 1)
        [Raw.ofString "north"] := by
  have opened : openAt (shelved [10]) shelf (capacity (some 5)) (.minimal {}) =
      .ok (shelved [10], onShelf ["look"] 1) := by rfl
  have holds : (shelved [10]).files.Holds shelf "look\n".toList := .inl ⟨_, rfl, rfl⟩
  have stores : Stores (onShelf ["look"] 1) (shelved [10]) [Raw.ofString "north"] := by
    have taken :
        (append (onShelf ["look"] 1) (shelved [10]) (Raw.ofString "north")).2.2 = none := by
      rw [shelved_append]
    constructor <;> rw [extend_cons _ _ taken, extend_nil, shelved_append]
    rfl
  exact ⟨opened, (restored_iff_restorable opened rfl holds stores).mpr
    ⟨by decide +kernel, .inl (by decide +kernel)⟩⟩

/-- A line that is typed behind one that is not ended is merged with it. -/
theorem shelved_merged :
    ∃ s, openAt (shelved []) shelf (capacity (some 5)) (.minimal {}) = .ok (shelved [], s) ∧
      (shelved []).files.Reads shelf "look".toList ∧
      (s.append (shelved []) (Raw.ofString "north")).1.journal = (shelved []).journal ∧
      (s.append (shelved []) (Raw.ofString "north")).2.2 = none ∧
      (s.append (shelved []) (Raw.ofString "north")).2.1.entries =
        ["look", "north"].map Raw.ofString ∧
      ∃ h' s', openAt (s.append (shelved []) (Raw.ofString "north")).1 shelf (capacity (some 5))
          (.minimal {}) = .ok (h', s') ∧ s'.entries = ["looknorth"].map Raw.ofString := by
  have opened : openAt (shelved []) shelf (capacity (some 5)) (.minimal {}) =
      .ok (shelved [], onShelf ["look"] 1) := by rfl
  refine ⟨_, opened, ⟨_, rfl, rfl⟩, ?_⟩
  rw [shelved_append]
  exact ⟨rfl, rfl, rfl, shelved [110, 111, 114, 116, 104, 10], onShelf ["looknorth"] 1, by rfl, rfl⟩

end WordMachine.History
