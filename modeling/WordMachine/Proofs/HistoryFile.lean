import WordMachine.Proofs.EncodedText
import WordMachine.Proofs.MadeDirectories
import WordMachine.Proofs.RememberedLines
import WordMachine.Proofs.StoredLines

/-!
# The file of a history

A line that is stored, with no complaint of the system and no refusal of the encoder, is a text of
characters. It is found in the file behind what was there, or at the end of what the history
remembers, and opening the history again reads it there. Complaints are about names that are
missing, in the way or too long: the trees have no links, permissions or full disks.
-/

namespace WordMachine

namespace FileTree

/-- The file at a path holds a text. -/
def Reads (t : FileTree) (p : Path) (text : List Char) : Prop :=
  ∃ content, t.readFile p = .ok content ∧ Text.Utf8.decode content = .ok text

/-- The file at a path holds a text, which is empty where there is no file. -/
def Holds (t : FileTree) (p : Path) (text : List Char) : Prop :=
  t.Reads p text ∨ t.Vacant p ∧ text = []

variable {t u : FileTree} {p : Path} {text : List Char}

/-- What is added to a file, once the directories above it are made, stands behind the text that
it held. -/
theorem Holds.append (holds : t.Holds p text) (line : String)
    (added : (t.makeDirectories p.parent).1.appendFile p (Text.Utf8.encode line) = .ok u) :
    u.Reads p (text ++ line.toList) := by
  obtain ⟨old, before, after⟩ := readFile_of_updateFile added
  refine ⟨_, after, ?_⟩
  obtain ⟨content, read, decoded⟩ | ⟨vacant, rfl⟩ := holds
  · have read' := (Grows.makeDirectories t p.parent).readFile read
    obtain same | ⟨missing, -⟩ := before
    · obtain rfl : content = old := Except.ok.inj (read'.symm.trans same)
      exact Text.Utf8.decode_append decoded (Text.Utf8.decode_encode line)
    · exact absurd read' (missing content)
  · obtain there | ⟨-, rfl⟩ := before
    · exact absurd there (vacant old)
    · exact Text.Utf8.decode_encode line

end FileTree

namespace Host

variable (h : Host) (level : Level) (channel : Channel) (message : String)

theorem size_journal_lt_log : h.journal.size < (h.log level channel message).journal.size := by
  rw [log, Array.size_push]
  exact Nat.lt_succ_self _

theorem journal_log_ne : (h.log level channel message).journal ≠ h.journal := by
  intro same
  have longer := h.size_journal_lt_log level channel message
  rw [same] at longer
  exact Nat.lt_irrefl _ longer

end Host

namespace History

open Text (EncodeError Raw)

/-- The text in the file of a history once a line is stored: what is remembered, where the file
holds as many lines as the limit, and else one more line. -/
def storedText (limit : Nat) (text : List Char) (entries : List String) (line : String) :
    List Char :=
  if limit ≤ (parse text).length then (render entries).toList else text ++ (line ++ "\n").toList

/-- What a history remembers is what is read of its file. -/
structure Follows (s : History) (h : Host) (q : Path) (text : List Char) : Prop where
  placed : s.path = some q
  positive : 1 ≤ s.limit
  holds : h.files.Holds q text
  entries : s.entries = (latest s.limit (parse text)).map Raw.ofString
  fileLines : s.fileLines = (parse text).length

variable {s : History} {h h' : Host} {path q : Path} {homes : Homes} {text : List Char}
  {raw : Raw} {line : String} {lines entries : List String} {limit : Nat}

theorem ended_storedText (limit : Nat) (text : List Char) (entries : List String) (line : String) :
    Ended (storedText limit text entries line) := by
  unfold storedText
  split
  · exact ended_render entries
  · exact ended_line text line

/-- Tidy lines are read back, unless they are put behind a line that is not ended. -/
theorem parse_storedText (ended : Ended text ∨ limit ≤ (parse text).length) (tidy : Tidy line)
    (each : ∀ entry ∈ entries, Tidy entry) :
    parse (storedText limit text entries line) =
      if limit ≤ (parse text).length then entries else parse text ++ [line] := by
  unfold storedText
  split
  · exact parse_render each
  · next room => exact parse_append_line (ended.resolve_right room) tidy

/-- What is put into a file is a text of characters. -/
theorem put_quiet {write : FileTree → Path → Bytes → Except FileError FileTree} {n : Nat}
    (quiet : (s.put h q write raw n).1.journal = h.journal)
    (taken : (s.put h q write raw n).2.2 = none) :
    ∃ text files, raw = Raw.ofString text ∧ write h.files q (Text.Utf8.encode text) = .ok files ∧
      s.put h q write raw n = ({ h with files }, { s with fileLines := n }, none) := by
  unfold put at quiet taken ⊢
  cases encoded : Raw.encode raw with
  | ok content =>
      obtain ⟨text, rfl, rfl⟩ := Raw.exists_of_encode encoded
      simp only [encoded] at quiet ⊢
      cases written : write h.files q (Text.Utf8.encode text) with
      | ok files => exact ⟨text, files, rfl, written, rfl⟩
      | error e =>
          rw [written] at quiet
          exact absurd quiet (Host.journal_log_ne _ _ _ _)
  | error refusal =>
      simp only [encoded] at quiet taken
      cases written : write h.files q [] with
      | ok files => rw [written] at taken; cases taken
      | error e =>
          rw [written] at quiet
          exact absurd quiet (Host.journal_log_ne _ _ _ _)

theorem store_quiet (placed : s.path = some q) (holds : h.files.Holds q text)
    (quiet : (s.store h raw).1.journal = h.journal) (taken : (s.store h raw).2.2 = none) :
    ∃ new, (s.store h raw).1.files.Reads q new ∧
      if s.limit ≤ s.fileLines then
        s.entries.flatMap terminated = new.map .char ∧
          (s.store h raw).2.1.fileLines = s.entries.length
      else
        text.map .char ++ terminated raw = new.map .char ∧
          (s.store h raw).2.1.fileLines = s.fileLines + 1 := by
  unfold store at quiet taken ⊢
  simp only [placed] at quiet taken ⊢
  rcases made : h.files.makeDirectories q.parent with ⟨files, failed⟩
  simp only [made] at quiet taken ⊢
  cases failed with
  | some e => exact absurd quiet (Host.journal_log_ne _ _ _ _)
  | none =>
      dsimp only at quiet taken ⊢
      by_cases full : s.limit ≤ s.fileLines
      · simp only [if_pos full] at quiet taken ⊢
        obtain ⟨all, files', same, written, put⟩ := put_quiet quiet taken
        obtain ⟨-, -, read⟩ := FileTree.readFile_of_updateFile written
        rw [put]
        exact ⟨all.toList, ⟨_, read, Text.Utf8.decode_encode all⟩, same, rfl⟩
      · simp only [if_neg full] at quiet taken ⊢
        obtain ⟨line, files', same, added, put⟩ := put_quiet quiet taken
        rw [put]
        refine ⟨text ++ line.toList, holds.append line ?_, ?_, rfl⟩
        · rw [made]
          exact added
        · rw [same, List.map_append, Raw.ofString]

/-- What is stored at a path that was read from once can be read from any files. -/
theorem exists_stored {g : Host} {found : Host × List String} (earlier : stored g q = .ok found)
    (h : Host) : ∃ h' lines, stored h q = .ok (h', lines) := by
  unfold stored
  cases read : h.files.readFile q with
  | ok content =>
      dsimp only
      cases Text.Utf8.decode content <;> exact ⟨_, _, rfl⟩
  | error e =>
      obtain ⟨⟨errno, paths⟩, rfl⟩ | nul := FileTree.readFile_error read
      · cases errno <;> exact ⟨_, _, rfl⟩
      · have unread : g.files.readFile q = .error .nulByte := by
          rw [FileTree.readFile, FileTree.locate_of_nul nul]
          rfl
        simp [stored, unread] at earlier

theorem stored_of_holds (holds : h.files.Holds q text) (read : stored h q = .ok (h', lines)) :
    lines = parse text ∧ h'.files = h.files := by
  unfold stored at read
  obtain ⟨content, found, decoded⟩ | ⟨vacant, rfl⟩ := holds
  · rw [found] at read
    simp only [decoded] at read
    obtain ⟨rfl, rfl⟩ := Prod.mk.inj (Except.ok.inj read)
    exact ⟨rfl, rfl⟩
  · split at read
    · obtain ⟨rfl, rfl⟩ := Prod.mk.inj (Except.ok.inj read)
      exact ⟨rfl, rfl⟩
    · obtain ⟨rfl, rfl⟩ := Prod.mk.inj (Except.ok.inj read)
      exact ⟨rfl, rfl⟩
    · cases read
    · next found => exact absurd found vacant.readFile_ne

/-- Histories can be opened on a path, and are placed at `q`, whatever the files are. -/
def OpensAt (path : Path) (homes : Homes) (q : Path) : Prop :=
  ∀ (h : Host) (limit : Nat), ∃ h' s, openAt h path limit homes = .ok (h', s) ∧ s.path = some q

/-- A history that was opened on a path can be opened there again. -/
theorem opensAt_of_openAt (opened : openAt h path limit homes = .ok (h', s))
    (placed : s.path = some q) : OpensAt path homes q := by
  obtain ⟨place, lines, expanded, read, rfl⟩ := openAt_eq_ok opened
  obtain rfl : place = q := Option.some.inj placed
  intro g limit'
  obtain ⟨g', again, found⟩ := exists_stored read g
  refine ⟨g', ⟨place, limit', latest limit' (again.map Raw.ofString), again.length⟩, ?_, rfl⟩
  simp only [openAt, expanded, found, bind, Except.bind, pure, Except.pure]

theorem OpensAt.path_eq (opens : OpensAt path homes q)
    (opened : openAt h path limit homes = .ok (h', s)) : s.path = some q := by
  obtain ⟨g, s', opened', placed⟩ := opens h limit
  obtain ⟨-, rfl⟩ := Prod.mk.inj (Except.ok.inj (opened.symm.trans opened'))
  exact placed

theorem follows_openAt (opened : openAt h path limit homes = .ok (h', s)) (placed : s.path = some q)
    (positive : 1 ≤ limit) (holds : h.files.Holds q text) :
    s.Follows h' q text ∧ h'.files = h.files ∧ s.limit = limit := by
  obtain ⟨place, lines, -, read, rfl⟩ := openAt_eq_ok opened
  obtain rfl : place = q := Option.some.inj placed
  obtain ⟨rfl, same⟩ := stored_of_holds holds read
  exact ⟨⟨rfl, positive, same ▸ holds, latest_map _ _ _, rfl⟩, same, rfl⟩

theorem Follows.remembered_eq {new : List Raw} (follows : s.Follows h q text)
    (remembered : remember s.limit s.entries raw = some new) :
    new = latest s.limit ((parse text).map Raw.ofString ++ [Raw.trim raw]) := by
  obtain ⟨-, -, rfl⟩ := remember_eq_some_iff.mp remembered
  rw [follows.entries, ← latest_map, latest_concat]

/-- A line that is remembered is stored, if nothing is complained about or refused: it is a text of
characters then. -/
theorem Follows.append {new : List Raw} (follows : s.Follows h q text)
    (remembered : remember s.limit s.entries raw = some new)
    (quiet : (s.append h raw).1.journal = h.journal) (taken : (s.append h raw).2.2 = none) :
    ∃ line, Raw.trim raw = Raw.ofString line ∧
      (s.append h raw).1.files.Reads q
        (storedText s.limit text (latest s.limit (parse text ++ [line])) line) ∧
      new = (latest s.limit (parse text ++ [line])).map Raw.ofString ∧
      (s.append h raw).2.1.entries = new ∧
      (s.append h raw).2.1.fileLines =
        if s.limit ≤ (parse text).length then new.length else (parse text).length + 1 := by
  have all := follows.remembered_eq remembered
  rw [append_of_remembered h remembered] at quiet taken ⊢
  have placed : History.path { s with entries := new } = some q := follows.placed
  obtain ⟨written, reads, told⟩ := store_quiet placed follows.holds quiet taken
  obtain ⟨count, same⟩ := exists_store { s with entries := new } h (Raw.trim raw)
  dsimp only at told
  have newest : Raw.trim raw ∈ new := by
    apply List.mem_of_getLast?
    rw [all, getLast?_latest follows.positive, List.getLast?_concat]
  -- the line is part of what was written, the whole of which is a text of characters
  have part : Raw.trim raw ⊆ written.map .char := by
    intro p mem
    split at told
    · rw [← told.1]
      exact List.mem_flatMap.mpr ⟨_, newest, List.mem_append_left _ mem⟩
    · rw [← told.1]
      exact List.mem_append_right _ (List.mem_append_left _ mem)
  obtain ⟨line, trimmed⟩ := Raw.exists_string part
  have strings : new = (latest s.limit (parse text ++ [line])).map Raw.ofString := by
    rw [all, trimmed, ← latest_map, List.map_append]
    rfl
  refine ⟨line, trimmed, ?_, strings, by rw [same], ?_⟩
  · suffices is : written = storedText s.limit text (latest s.limit (parse text ++ [line])) line by
      rw [← is]
      exact reads
    rw [storedText, ← follows.fileLines]
    split at told
    · next full =>
        have all_written := told.1
        rw [strings, flatMap_terminated, Raw.ofString_eq_map_iff] at all_written
        rw [if_pos full, all_written]
    · next room =>
        have line_written := told.1
        rw [trimmed, terminated_ofString, Raw.ofString, ← List.map_append,
          List.map_inj_right fun _ _ is => Text.CodePoint.char.inj is] at line_written
        rw [if_neg room, line_written]
  · rw [← follows.fileLines]
    split at told
    · next full => rw [if_pos full, told.2]
    · next room => rw [if_neg room, told.2]

/-- A line that is kept whole and put behind an ended line, or into a file that is written afresh,
is read back. -/
theorem Follows.append_whole {new : List Raw} (follows : s.Follows h q text)
    (remembered : remember s.limit s.entries raw = some new)
    (quiet : (s.append h raw).1.journal = h.journal) (taken : (s.append h raw).2.2 = none)
    (whole : Raw.Whole (Raw.trim raw)) (ended : Ended text ∨ s.limit ≤ (parse text).length) :
    ∃ line, Raw.trim raw = Raw.ofString line ∧
      new = (latest s.limit (parse text ++ [line])).map Raw.ofString ∧
      (∀ entry ∈ latest s.limit (parse text ++ [line]), Tidy entry) ∧
      (s.append h raw).2.1.Follows (s.append h raw).1 q
        (storedText s.limit text (latest s.limit (parse text ++ [line])) line) := by
  obtain ⟨line, trimmed, reads, strings, known, counted⟩ := follows.append remembered quiet taken
  have tidy := tidy_of_trim_eq trimmed whole (remember_eq_some_iff.mp remembered).1
  have each : ∀ entry ∈ latest s.limit (parse text ++ [line]), Tidy entry := by
    intro entry mem
    obtain mem | mem := List.mem_append.mp (List.mem_of_mem_drop mem)
    · exact tidy_of_mem_parse mem
    · rw [List.mem_singleton.mp mem]
      exact tidy
  have parsed := parse_storedText ended tidy each
  have limited := limit_append s h raw
  have placed := (path_append s h raw).trans follows.placed
  refine ⟨line, trimmed, strings, each, placed, limited ▸ follows.positive, .inl reads, ?_, ?_⟩
  · rw [known, limited, parsed, strings]
    split
    · rw [latest_latest]
    · rfl
  · rw [counted, parsed, strings]
    split
    · rw [List.length_map]
    · rw [List.length_append, List.length_singleton]

end History

end WordMachine
