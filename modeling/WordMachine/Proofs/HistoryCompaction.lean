import WordMachine.Proofs.HistoryFile

/-!
# Compaction of history files

A history file that holds tidy lines keeps doing so, from one session to the next and whatever their
limits are: every line that is remembered leaves just the remembered lines in the file, as one more
line or written afresh.
-/

namespace WordMachine.History

open Text (Raw)

/-- Histories on one path, the last with the given limit: opened first on a file with tidy lines or
on none, then opened again, with any limit, or given a line that is stored. A line that could not be
stored would be complained about in the journal or refused. -/
inductive Lives (path : Path) (homes : Homes) : Option Int → Host → History → Prop where
  | opened {h h' : Host} {s : History} {q : Path} {limit : Option Int} {lines : List String}
      (opened : openAt h path (capacity limit) homes = .ok (h', s)) (placed : s.path = some q)
      (holds : h.files.Holds q (render lines).toList) (tidy : ∀ line ∈ lines, Tidy line) :
      Lives path homes limit h' s
  | reopened {h h' : Host} {s s' : History} {limit limit' : Option Int}
      (lives : Lives path homes limit h s)
      (opened : openAt h path (capacity limit') homes = .ok (h', s')) :
      Lives path homes limit' h' s'
  | appended {h : Host} {s : History} {limit : Option Int} {line : Raw}
      (lives : Lives path homes limit h s) (whole : Raw.Whole (Raw.trim line))
      (quiet : (s.append h line).1.journal = h.journal) (taken : (s.append h line).2.2 = none) :
      Lives path homes limit (s.append h line).1 (s.append h line).2.1

/-- A history whose file holds tidy lines. -/
structure Compact (s : History) (h : Host) (q : Path) (lines : List String) : Prop where
  follows : s.Follows h q (render lines).toList
  tidy : ∀ line ∈ lines, Tidy line

variable {s : History} {h : Host} {path q : Path} {homes : Homes} {raw : Raw}
  {lines : List String} {new : List Raw}

namespace Compact

theorem entries (compact : s.Compact h q lines) :
    s.entries = (latest s.limit lines).map Raw.ofString := by
  rw [compact.follows.entries, parse_render compact.tidy]

theorem fileLines (compact : s.Compact h q lines) : s.fileLines = lines.length := by
  rw [compact.follows.fileLines, parse_render compact.tidy]

/-- Whichever way a line is stored, the file then holds what is remembered. -/
theorem storedText_eq (compact : s.Compact h q lines) (line : String) :
    storedText s.limit (render lines).toList (latest s.limit (lines ++ [line])) line =
      (render (latest s.limit (lines ++ [line]))).toList := by
  rw [storedText, parse_render compact.tidy]
  split
  · rfl
  · next room =>
      have all : latest s.limit (lines ++ [line]) = lines ++ [line] := by
        apply latest_of_length_le
        rw [List.length_append, List.length_singleton]
        omega
      have last : render [line] = line ++ "\n" := by simp [render]
      rw [all, render_append, last]
      simp only [String.toList_append]

theorem append (compact : s.Compact h q lines)
    (remembered : remember s.limit s.entries raw = some new) (whole : Raw.Whole (Raw.trim raw))
    (quiet : (s.append h raw).1.journal = h.journal) (taken : (s.append h raw).2.2 = none) :
    ∃ kept : List String, new = kept.map Raw.ofString ∧
      (s.append h raw).2.1.Compact (s.append h raw).1 q kept := by
  have ended := ended_render lines
  obtain ⟨line, -, strings, tidy, next⟩ :=
    compact.follows.append_whole remembered quiet taken whole (.inl ended)
  rw [parse_render compact.tidy] at strings tidy next
  rw [compact.storedText_eq line] at next
  exact ⟨_, strings, next, tidy⟩

end Compact

theorem Lives.compact {limit : Option Int} (lives : Lives path homes limit h s) :
    ∃ q lines, OpensAt path homes q ∧ s.limit = capacity limit ∧ s.Compact h q lines := by
  induction lives with
  | @opened h h' s q limit lines opened placed holds tidy =>
      obtain ⟨follows, -, limited⟩ := follows_openAt opened placed (one_le_capacity limit) holds
      exact ⟨q, lines, opensAt_of_openAt opened placed, limited, follows, tidy⟩
  | @reopened h h' s s' limit limit' lives opened ih =>
      obtain ⟨q, lines, opens, -, compact⟩ := ih
      obtain ⟨follows, -, limited⟩ := follows_openAt opened (opens.path_eq opened)
        (one_le_capacity limit') compact.follows.holds
      exact ⟨q, lines, opens, limited, follows, compact.tidy⟩
  | @appended h s limit line lives whole quiet taken ih =>
      obtain ⟨q, lines, opens, limited, compact⟩ := ih
      cases step : remember s.limit s.entries line with
      | none =>
          rw [append_of_forgotten h step]
          exact ⟨q, lines, opens, limited, compact⟩
      | some new =>
          obtain ⟨kept, -, next⟩ := compact.append step whole quiet taken
          exact ⟨q, kept, opens, (limit_append s h line).trans limited, next⟩

/-- At every moment of a history the number of lines is that of its file and the entries are the
last of them. An append that changes the entries leaves just those in the file, no more than the
limit. The history can be opened again at any time. -/
theorem entries_of_lives {limit : Option Int} {h : Host} {s : History} {path : Path} {homes : Homes}
    (lives : Lives path homes limit h s) :
    ∃ q lines, s.path = some q ∧ h.files.Holds q (render lines).toList ∧
      (∀ line ∈ lines, Tidy line) ∧ s.fileLines = lines.length ∧
      s.entries = (latest (capacity limit) lines).map Raw.ofString ∧
      (∀ line, Raw.Whole (Raw.trim line) → (s.append h line).1.journal = h.journal →
        (s.append h line).2.2 = none → (s.append h line).2.1.entries ≠ s.entries →
        ∃ kept : List String, (s.append h line).2.1.entries = kept.map Raw.ofString ∧
          (s.append h line).1.files.Reads q (render kept).toList ∧
          kept.length ≤ capacity limit) ∧
      ∀ limit' : Option Int, ∃ h' s', openAt h path (capacity limit') homes = .ok (h', s') := by
  obtain ⟨q, lines, opens, limited, compact⟩ := lives.compact
  refine ⟨q, lines, compact.follows.placed, compact.follows.holds, compact.tidy, compact.fileLines,
    limited ▸ compact.entries, fun line whole quiet taken changed => ?_, fun limit' => ?_⟩
  · cases step : remember s.limit s.entries line with
    | none =>
        rw [append_of_forgotten h step] at changed
        exact absurd rfl changed
    | some new =>
        obtain ⟨text, -, reads, strings, known, -⟩ := compact.follows.append step quiet taken
        rw [parse_render compact.tidy] at reads strings
        rw [compact.storedText_eq text] at reads
        refine ⟨_, known.trans strings, reads, ?_⟩
        rw [length_latest, limited]
        exact Nat.min_le_left _ _
  · obtain ⟨h', s', opened, -⟩ := opens h (capacity limit')
    exact ⟨h', s', opened⟩

/-- The path of a file that is not there at first. -/
def scroll : Path := { root := "/", parts := ["scroll"] }

/-- The file once it holds something. -/
def scrolled (content : Bytes) : Host where
  files := { nodes := [(["scroll"], .file content)] }

/-- A history with lines of characters, as many as there are in the file. -/
def onScroll (limit : Nat) (texts : List String) : History :=
  ⟨scroll, limit, texts.map Raw.ofString, texts.length⟩

theorem scrolled_up : append (onScroll 2 []) {} (Raw.ofString "up") =
    (scrolled [117, 112, 10], onScroll 2 ["up"], none) := by
  have remembered : remember 2 [] (Raw.ofString "up") = some [Raw.ofString "up"] := by
    decide +kernel
  have bytes : Raw.encode (terminated (Raw.trim (Raw.ofString "up"))) = .ok [117, 112, 10] := by
    decide +kernel
  have root : FileTree.locate {} scroll.parent = .ok [] := rfl
  have above := FileTree.makeDirectories_of_directory root rfl
  rw [append_of_remembered _ remembered, store]
  dsimp only [onScroll]
  rw [above]
  simp only [put, bytes]
  rfl

theorem scrolled_down : append (onScroll 1 ["up"]) (scrolled [117, 112, 10]) (Raw.ofString "down") =
    (scrolled [100, 111, 119, 110, 10], onScroll 1 ["down"], none) := by
  have remembered : remember 1 [Raw.ofString "up"] (Raw.ofString "down") =
      some [Raw.ofString "down"] := by decide +kernel
  have bytes : Raw.encode ([Raw.ofString "down"].flatMap terminated) =
      .ok [100, 111, 119, 110, 10] := by decide +kernel
  have root : (scrolled [117, 112, 10]).files.locate scroll.parent = .ok [] := rfl
  have above := FileTree.makeDirectories_of_directory root rfl
  rw [append_of_remembered _ remembered, store]
  dsimp only [onScroll]
  rw [above]
  simp only [put, bytes]
  rfl

/-- Two sessions, the second of which keeps one line only. -/
theorem scrolled_entries :
    openAt {} scroll (capacity (some 2)) (.minimal {}) = .ok ({}, onScroll 2 []) ∧
      openAt (append (onScroll 2 []) {} (Raw.ofString "up")).1 scroll (capacity none)
          (.minimal {}) = .ok (scrolled [117, 112, 10], onScroll 1 ["up"]) ∧
      (append (onScroll 1 ["up"]) (scrolled [117, 112, 10])
        (Raw.ofString "down")).1.files.Reads scroll (render ["down"]).toList := by
  have missing : ({} : FileTree).Vacant scroll := by
    refine FileTree.vacant_of_missing ?_ (by decide) (fun content read => ?_)
    · intro loc name there
      simp [FileTree.find?] at there
    · cases read
  have opened : openAt {} scroll (capacity (some 2)) (.minimal {}) = .ok ({}, onScroll 2 []) := by
    rfl
  have first : Lives scroll (.minimal {}) (some 2) {} (onScroll 2 []) :=
    .opened opened rfl (.inr ⟨missing, rfl⟩) (List.forall_mem_nil _)
  have whole : Raw.Whole (Raw.trim (Raw.ofString "up")) := by decide +kernel
  have second := first.appended whole (by rw [scrolled_up]; rfl) (by rw [scrolled_up])
  have again : openAt (append (onScroll 2 []) {} (Raw.ofString "up")).1 scroll (capacity none)
      (.minimal {}) = .ok (scrolled [117, 112, 10], onScroll 1 ["up"]) := by
    rw [scrolled_up]
    rfl
  refine ⟨opened, again, ?_⟩
  obtain ⟨q, lines, placed, -, -, -, -, compacted, -⟩ := entries_of_lives (second.reopened again)
  obtain rfl : scroll = q := Option.some.inj placed
  obtain ⟨kept, known, reads, -⟩ := compacted (Raw.ofString "down") (by decide +kernel)
    (by rw [scrolled_down]; rfl) (by rw [scrolled_down]) (by rw [scrolled_down]; decide +kernel)
  rw [scrolled_down] at known
  obtain rfl : ["down"] = kept := (List.map_inj_right fun _ _ is => Raw.ofString_inj.mp is).mp known
  exact reads

end WordMachine.History
