import Mathlib.Data.List.Chain
import WordMachine.Input.History
import WordMachine.Proofs.MadeDirectories

/-!
# Remembered lines

What a history remembers is the end of what it would remember without a limit, however often its
file refuses a line: the limit, kept to at every line, forgets nothing that counts later. Only what
no encoder takes makes a difference: the lines behind it that are brought with it are lost.
-/

namespace WordMachine.History

open Text (EncodeError Raw)

/-- The entries with a line behind them, unless it is blank or the latest entry again. -/
def heed (entries : List Raw) (line : Raw) : List Raw :=
  if Raw.trim line = [] ∨ entries.getLast? = some (Raw.trim line) then entries
  else entries ++ [Raw.trim line]

/-- The entries that lines add to those stored, without a limit. -/
def unlimited (stored lines : List Raw) : List Raw := lines.foldl heed stored

/-- What is asked of a history. -/
inductive Request where
  | append (line : Raw)
  | extend (lines : List Raw)

/-- The lines that a request brings. -/
def Request.lines : Request → List Raw
  | .append line => [line]
  | .extend lines => lines

/-- A history as it is opened: in memory only, or on a file with some lines in it. -/
inductive Starts (limit : Option Int) : List Raw → History → Prop where
  | inMemory : Starts limit [] (.inMemory (capacity limit))
  | openAt {h h' : Host} {path q : Path} {homes : Homes} {s : History} {lines : List String}
      (opened : openAt h path (capacity limit) homes = .ok (h', s)) (placed : s.path = some q)
      (read : stored h q = .ok (h', lines)) : Starts limit (lines.map Raw.ofString) s

/-- What came of a request: the lines that were taken, and what ended it before the others were. -/
structure Answer where
  taken : List Raw
  refusal : Option EncodeError := none

/-- A request is answered: all its lines are taken, or those up to one that the encoder refuses. -/
structure Answers (request : Request) (answer : Answer) : Prop where
  begins : answer.taken <+: request.lines
  refused : answer.refusal ≠ none → answer.taken ≠ []
  completed : answer.refusal = none → answer.taken = request.lines

/-- What lines make of a history when each of them meets a host of its own, which may refuse to
store it, up to a line that the encoder refuses. -/
inductive Takes : History → List Raw → Answer → History → Prop where
  | nil (s : History) : Takes s [] { taken := [] } s
  | cons {s s' : History} {line : Raw} {lines : List Raw} {answer : Answer} (h : Host)
      (accepted : (s.append h line).2.2 = none)
      (later : Takes (s.append h line).2.1 lines answer s') :
      Takes s (line :: lines) { answer with taken := line :: answer.taken } s'
  | refused {s : History} {line : Raw} {lines : List Raw} {e : EncodeError} (h : Host)
      (refused : (s.append h line).2.2 = some e) :
      Takes s (line :: lines) { taken := [line], refusal := some e } (s.append h line).2.1

/-- What requests make of a history, whatever becomes of its file, and the answers to them. -/
inductive Serves : History → List Request → List Answer → History → Prop where
  | nil (s : History) : Serves s [] [] s
  | cons {s t s' : History} {request : Request} {requests : List Request} {answer : Answer}
      {answers : List Answer} (taken : Takes s request.lines answer t)
      (later : Serves t requests answers s') :
      Serves s (request :: requests) (answer :: answers) s'

variable {s s' : History} {lines : List Raw} {answer : Answer} {requests : List Request}
  {answers : List Answer}

/-- A line that is appended on a host is taken, even if the encoder refuses it. -/
theorem takes_append (s : History) (h : Host) (line : Raw) :
    s.Takes (Request.append line).lines ⟨[line], (s.append h line).2.2⟩ (s.append h line).2.1 := by
  cases outcome : (s.append h line).2.2 with
  | none => exact .cons h outcome (.nil _)
  | some e => exact .refused h outcome

/-- Lines that are appended on one host, which they all change, are taken. -/
theorem takes_extend (s : History) (h : Host) (lines : List Raw) :
    ∃ taken, s.Takes (Request.extend lines).lines ⟨taken, (s.extend h lines).2.2⟩
      (s.extend h lines).2.1 := by
  show ∃ taken, s.Takes lines ⟨taken, (s.extend h lines).2.2⟩ (s.extend h lines).2.1
  induction lines generalizing s h with
  | nil => exact ⟨[], .nil s⟩
  | cons line lines ih =>
      cases outcome : (s.append h line).2.2 with
      | none =>
          obtain ⟨taken, later⟩ := ih (s.append h line).2.1 (s.append h line).1
          rw [extend_cons h lines outcome]
          exact ⟨line :: taken, .cons h outcome later⟩
      | some e =>
          rw [extend_cons_of_refused h lines outcome, outcome]
          exact ⟨[line], .refused h outcome⟩

theorem Takes.answered {request : Request} (takes : s.Takes request.lines answer s') :
    Answers request answer := by
  suffices all : answer.taken <+: request.lines ∧ (answer.refusal ≠ none → answer.taken ≠ []) ∧
      (answer.refusal = none → answer.taken = request.lines) from ⟨all.1, all.2.1, all.2.2⟩
  generalize request.lines = lines at takes
  induction takes with
  | nil => exact ⟨List.nil_prefix, fun refused => absurd rfl refused, fun _ => rfl⟩
  | @cons s s' line lines answer h accepted later ih =>
      obtain ⟨begins, -, completed⟩ := ih
      exact ⟨List.cons_prefix_cons.mpr ⟨rfl, begins⟩, fun _ => List.cons_ne_nil _ _,
        fun none => congrArg (line :: ·) (completed none)⟩
  | @refused s line lines e h refused =>
      exact ⟨List.cons_prefix_cons.mpr ⟨rfl, List.nil_prefix⟩, fun _ => List.cons_ne_nil _ _, nofun⟩

theorem Serves.answered (served : s.Serves requests answers s') :
    List.Forall₂ Answers requests answers := by
  induction served with
  | nil => exact .nil
  | cons taken _ ih => exact .cons taken.answered ih

/-- Where nothing is refused, all lines are taken. -/
theorem taken_of_completed (each : List.Forall₂ Answers requests answers)
    (completed : ∀ answer ∈ answers, answer.refusal = none) :
    answers.flatMap Answer.taken = requests.flatMap Request.lines := by
  induction each with
  | nil => rfl
  | cons first _ ih =>
      obtain ⟨here, later⟩ := List.forall_mem_cons.mp completed
      rw [List.flatMap_cons, List.flatMap_cons, first.completed here, ih later]

/-- A history keeps the end of what it would remember without its limit. -/
def Keeps (s : History) (entries : List Raw) : Prop :=
  1 ≤ s.limit ∧ s.entries = latest s.limit entries

theorem Keeps.append {entries : List Raw} (keeps : s.Keeps entries) (h : Host) (line : Raw) :
    (s.append h line).2.1.Keeps (heed entries line) := by
  obtain ⟨positive, kept⟩ := keeps
  rw [Keeps, limit_append, entries_append, kept]
  refine ⟨positive, ?_⟩
  rw [remember_eq, getLast?_latest positive, heed]
  split
  · rfl
  · exact latest_concat s.limit entries _

theorem Takes.keeps (takes : s.Takes lines answer s') {entries : List Raw}
    (keeps : s.Keeps entries) :
    s'.limit = s.limit ∧ s'.Keeps (unlimited entries answer.taken) := by
  induction takes generalizing entries with
  | nil s => exact ⟨rfl, keeps⟩
  | @cons s s' line lines answer h accepted later ih =>
      obtain ⟨same, kept⟩ := ih (keeps.append h line)
      rw [limit_append] at same
      exact ⟨same, kept⟩
  | @refused s line lines e h refused => exact ⟨limit_append s h line, keeps.append h line⟩

theorem Serves.keeps (served : s.Serves requests answers s') {entries : List Raw}
    (keeps : s.Keeps entries) :
    s'.limit = s.limit ∧ s'.Keeps (unlimited entries (answers.flatMap Answer.taken)) := by
  induction served generalizing entries with
  | nil => exact ⟨rfl, keeps⟩
  | @cons s t s' request requests answer answers takes later ih =>
      obtain ⟨limited, kept⟩ := takes.keeps keeps
      obtain ⟨limited', kept'⟩ := ih kept
      rw [List.flatMap_cons, unlimited, List.foldl_append]
      exact ⟨limited'.trans limited, kept'⟩

theorem openAt_eq_ok {h h' : Host} {path : Path} {homes : Homes} {limit : Nat}
    (opened : openAt h path limit homes = .ok (h', s)) :
    ∃ q lines, path.expandHome homes = .ok q ∧ stored h q = .ok (h', lines) ∧
      s = ⟨q, limit, latest limit (lines.map Raw.ofString), lines.length⟩ := by
  unfold openAt at opened
  split at opened
  · cases opened
  · next q expanded =>
      rcases read : stored h q with e | ⟨g, lines⟩
      · simp [read, bind, Except.bind] at opened
      · obtain ⟨rfl, rfl⟩ : g = h' ∧ _ = s := by
          simpa [read, bind, Except.bind, pure, Except.pure] using opened
        exact ⟨q, lines, expanded, read, rfl⟩

theorem Starts.keeps {limit : Option Int} (starts : Starts limit lines s) :
    s.limit = capacity limit ∧ s.Keeps lines := by
  have positive := one_le_capacity limit
  cases starts with
  | inMemory => exact ⟨rfl, positive, (latest_of_length_le (Nat.zero_le _)).symm⟩
  | openAt opened placed read =>
      obtain ⟨q, found, -, found_at, rfl⟩ := openAt_eq_ok opened
      obtain rfl : q = _ := Option.some.inj placed
      obtain rfl : found = _ := (Prod.mk.inj (Except.ok.inj (found_at.symm.trans read))).2
      exact ⟨rfl, positive, rfl⟩

/-! ## Lines that are never refused -/

/-- A line of characters. -/
def Plain (line : Raw) : Prop := ∃ text, line = Raw.ofString text

theorem taken_of_no_path (unplaced : s.path = none) (h : Host) (line : Raw) :
    (s.append h line).2.2 = none ∧ (s.append h line).2.1.path = none := by
  refine ⟨?_, (s.path_append h line).trans unplaced⟩
  unfold append
  split
  · rfl
  · unfold store
    simp only [unplaced]

theorem taken_of_plain {line : Raw} (encodable : s.Encodable) (plain : Plain line) (h : Host) :
    (s.append h line).2.2 = none ∧ (s.append h line).2.1.Encodable := by
  obtain ⟨text, rfl⟩ := plain
  exact ⟨encodable.taken h text, encodable.append h text⟩

section Accepted

variable {motive : History → Prop} {fine : Raw → Prop}

theorem Takes.accepted (takes : s.Takes lines answer s')
    (each : ∀ s h line, motive s → fine line →
      (s.append h line).2.2 = none ∧ motive (s.append h line).2.1)
    (start : motive s) (all : ∀ line ∈ lines, fine line) : answer.refusal = none ∧ motive s' := by
  induction takes with
  | nil => exact ⟨rfl, start⟩
  | @cons s s' line lines answer h _ later ih =>
      obtain ⟨here, others⟩ := List.forall_mem_cons.mp all
      exact ih (each s h line start here).2 others
  | @refused s line lines e h refused =>
      have taken := (each s h line start (all line List.mem_cons_self)).1
      rw [refused] at taken
      cases taken

/-- Where every line is taken that a history might be asked to remember, no request is refused. -/
theorem Serves.accepted (served : s.Serves requests answers s')
    (each : ∀ s h line, motive s → fine line →
      (s.append h line).2.2 = none ∧ motive (s.append h line).2.1)
    (start : motive s) (all : ∀ request ∈ requests, ∀ line ∈ request.lines, fine line) :
    ∀ answer ∈ answers, answer.refusal = none := by
  induction served with
  | nil => exact List.forall_mem_nil _
  | cons takes _ ih =>
      obtain ⟨here, others⟩ := List.forall_mem_cons.mp all
      obtain ⟨taken, next⟩ := takes.accepted each start here
      exact List.forall_mem_cons.mpr ⟨taken, ih next others⟩

end Accepted

/-- The encoder refuses nothing of a history without a file, and no lines of characters. -/
theorem completed_of_plain {limit : Option Int} (starts : Starts limit lines s)
    (served : s.Serves requests answers s')
    (plain : s.path = none ∨ ∀ request ∈ requests, ∀ line ∈ request.lines, Plain line) :
    ∀ answer ∈ answers, answer.refusal = none := by
  have unplaced_case (unplaced : s.path = none) : ∀ answer ∈ answers, answer.refusal = none := by
    have each (s : History) (h : Host) (line : Raw) (start : s.path = none) (_ : True) :
        (s.append h line).2.2 = none ∧ (s.append h line).2.1.path = none :=
      taken_of_no_path start h line
    exact served.accepted each unplaced fun _ _ _ _ => trivial
  obtain unplaced | plain := plain
  · exact unplaced_case unplaced
  · cases starts with
    | inMemory => exact unplaced_case rfl
    | openAt opened =>
        have each (s : History) (h : Host) (line : Raw) (start : s.Encodable) (fine : Plain line) :
            (s.append h line).2.2 = none ∧ (s.append h line).2.1.Encodable :=
          taken_of_plain start fine h
        exact served.accepted each (encodable_openAt opened) plain

/-- What is added without a limit: some of the lines in their order, none of them twice in a row. -/
theorem exists_added (entries lines : List Raw) :
    ∃ added, unlimited entries lines = entries ++ added ∧ added.Sublist (lines.map Raw.trim) ∧
      (entries.getLast?.toList ++ added).IsChain (· ≠ ·) := by
  induction lines generalizing entries with
  | nil =>
      refine ⟨[], (List.append_nil _).symm, List.Sublist.refl _, ?_⟩
      cases entries.getLast? <;> simp
  | cons line lines ih =>
      obtain ⟨added, all, sublist, apart⟩ := ih (heed entries line)
      have heeded : unlimited entries (line :: lines) = heed entries line ++ added := all
      rw [heeded]
      by_cases kept : Raw.trim line = [] ∨ entries.getLast? = some (Raw.trim line)
      · rw [heed, if_pos kept] at apart ⊢
        exact ⟨added, rfl, sublist.cons _, apart⟩
      · rw [heed, if_neg kept] at apart ⊢
        refine ⟨Raw.trim line :: added, by simp, sublist.cons_cons _, ?_⟩
        rw [List.getLast?_concat] at apart
        cases last : entries.getLast? with
        | none => exact apart
        | some newest =>
            have other : newest ≠ Raw.trim line := fun same => kept (.inr (same ▸ last))
            exact .cons_cons other apart

/-- However large the limit and whatever becomes of the file, a history remembers the latest of
what it would remember of the lines that were taken without a limit: never more than its limit, the
lines in their order, none of them added behind the same one. All lines are taken where no request
is refused, and none is if the history has no file or no line holds half of a surrogate pair on its
own. A request that is refused has taken its lines up to the one that the encoder refused. -/
theorem entries_latest {limit : Option Int} {lines : List Raw} {s s' : History}
    {requests : List Request} {answers : List Answer} (starts : Starts limit lines s)
    (served : s.Serves requests answers s') :
    s'.entries = latest (capacity limit) (unlimited lines (answers.flatMap Answer.taken)) ∧
      s'.entries.length ≤ capacity limit ∧
      (∃ added, unlimited lines (answers.flatMap Answer.taken) = lines ++ added ∧
        added.Sublist ((answers.flatMap Answer.taken).map Raw.trim) ∧
        (lines.getLast?.toList ++ added).IsChain (· ≠ ·)) ∧
      List.Forall₂ Answers requests answers ∧
      ((∀ answer ∈ answers, answer.refusal = none) →
        s'.entries = latest (capacity limit)
          (unlimited lines (requests.flatMap Request.lines))) ∧
      (s.path = none ∨ (∀ request ∈ requests, ∀ line ∈ request.lines, Plain line) →
        ∀ answer ∈ answers, answer.refusal = none) := by
  obtain ⟨limited, keeps⟩ := starts.keeps
  obtain ⟨same, -, kept⟩ := served.keeps keeps
  rw [same, limited] at kept
  refine ⟨kept, ?_, exists_added _ _, served.answered, ?_, completed_of_plain starts served⟩
  · rw [kept, length_latest]
    exact Nat.min_le_left _ _
  · intro completed
    rw [kept, taken_of_completed served.answered completed]

/-- The path of a file with lines. -/
def linesPath : Path := { root := "/", parts := ["lines"] }

/-- The file with three lines in it. -/
def threeLines : Host where
  files := { nodes := [(["lines"], .file [97, 10, 98, 10, 99, 10])] }

/-- A directory where the file is looked for. -/
def noLines : Host where
  files := { nodes := [(["lines"], .directory)] }

theorem refused_entries_latest :
    ∃ s, openAt threeLines linesPath (capacity (some 2)) (.minimal {}) = .ok (threeLines, s) ∧
      ((s.append noLines (Raw.ofString "d")).2.1.extend threeLines
        (["d", " e ", ""].map Raw.ofString)).2.1.entries = ["d", "e"].map Raw.ofString := by
  have opened : openAt threeLines linesPath (capacity (some 2)) (.minimal {}) =
      .ok (threeLines, ⟨linesPath, 2, ["b", "c"].map Raw.ofString, 3⟩) := by rfl
  have read : stored threeLines linesPath = .ok (threeLines, ["a", "b", "c"]) := by rfl
  have starts : Starts (some 2) (["a", "b", "c"].map Raw.ofString) _ := .openAt opened rfl read
  obtain ⟨taken, extended⟩ := takes_extend
    (append ⟨linesPath, 2, ["b", "c"].map Raw.ofString, 3⟩ noLines (Raw.ofString "d")).2.1
    threeLines (["d", " e ", ""].map Raw.ofString)
  have served := Serves.cons (takes_append _ noLines (Raw.ofString "d"))
    (.cons extended (.nil _))
  obtain ⟨-, -, -, -, entries, completed⟩ := entries_latest starts served
  refine ⟨_, opened, (entries (completed (.inr ?_))).trans (by decide +kernel)⟩
  intro request asked line mem
  have texts : request.lines ⊆ ["d", "d", " e ", ""].map Raw.ofString := by
    simp only [List.mem_cons, List.not_mem_nil, or_false] at asked
    rcases asked with rfl | rfl <;> decide +kernel
  obtain ⟨text, -, rfl⟩ := List.mem_map.mp (texts mem)
  exact ⟨text, rfl⟩

/-- A line that no encoder takes. -/
def halved : Raw := [.char 'a', .half 0xDCFF ⟨by decide, by decide⟩]

/-- A line that no encoder takes is remembered, but the one that is brought with it is lost. -/
theorem lost_behind_halved :
    ∃ s, openAt {} linesPath (capacity (some 5)) (.minimal {}) = .ok ({}, s) ∧
      (s.extend {} [halved, Raw.ofString "b"]).2.2 = some { position := 1, unit := 0xDCFF } ∧
      (s.extend {} [halved, Raw.ofString "b"]).2.1.entries = [halved] ∧
      latest (capacity (some 5)) (unlimited [] [halved, Raw.ofString "b"]) =
        [halved, Raw.ofString "b"] := by
  have opened : openAt {} linesPath (capacity (some 5)) (.minimal {}) =
      .ok ({}, ⟨linesPath, 5, [], 0⟩) := by rfl
  have remembered : remember 5 [] halved = some [halved] := by decide +kernel
  have root : FileTree.locate {} linesPath.parent = .ok [] := rfl
  have above := FileTree.makeDirectories_of_directory root rfl
  have refused : (append ⟨linesPath, 5, [], 0⟩ {} halved).2 =
      (⟨linesPath, 5, [halved], 0⟩, some { position := 1, unit := 0xDCFF }) := by
    rw [append_of_remembered _ remembered, store]
    dsimp only
    rw [above]
    rfl
  refine ⟨_, opened, ?_⟩
  rw [extend_cons_of_refused _ _ (congrArg Prod.snd refused), refused]
  exact ⟨rfl, rfl, by decide +kernel⟩

end WordMachine.History
