import Mathlib.Data.List.Induction
import WordMachine.Proofs.FileAside

/-!
# Directories made on the way to a file

Directories that are made close no way and change no file. They can open a way to a file only where
a path leads back up behind them; on all other paths a file that was missing is still missing when
they are made.
-/

namespace WordMachine

namespace FileTree

/-- Nothing has changed in a tree but that directories were made. -/
structure Grows (t u : FileTree) : Prop where
  cwd : u.cwd = t.cwd
  find? : ∀ loc, u.find? loc = t.find? loc ∨ t.find? loc = none ∧ u.find? loc = some .directory

/-- There is no file at a path, also not once the directories above it are made, which can open a
way to a file elsewhere where the path leads back up. -/
def Vacant (t : FileTree) (p : Path) : Prop :=
  ∀ content, (t.makeDirectories p.parent).1.readFile p ≠ .ok content

variable {t u v : FileTree} {p : Path} {loc : Location} {content : Bytes}

theorem exists_of_readFile (read : t.readFile p = .ok content) :
    ∃ loc, t.locate p = .ok loc ∧ t.find? loc = some (.file content) := by
  unfold readFile at read
  cases located : t.locate p with
  | error e => simp [located, bind, Except.bind] at read
  | ok loc =>
      simp only [located, bind, Except.bind] at read
      split at read
      · next held found =>
          obtain rfl : held = content := Except.ok.inj read
          exact ⟨loc, rfl, found⟩
      · cases read
      · cases read

namespace Grows

theorem refl (t : FileTree) : t.Grows t := ⟨rfl, fun _ => .inl rfl⟩

theorem trans (first : t.Grows u) (second : u.Grows v) : t.Grows v where
  cwd := second.cwd.trans first.cwd
  find? := by
    intro loc
    obtain same | ⟨missing, made⟩ := second.find? loc
    · rw [same]
      exact first.find? loc
    · obtain same' | ⟨missing', -⟩ := first.find? loc
      · exact .inr ⟨same' ▸ missing, made⟩
      · exact .inr ⟨missing', made⟩

theorem keepsDirectories (grows : t.Grows u) : t.KeepsDirectories u where
  cwd := grows.cwd
  directory := by
    intro loc found
    obtain same | ⟨missing, -⟩ := grows.find? loc
    · exact same.trans found
    · rw [missing] at found
      cases found

theorem file_iff (grows : t.Grows u) :
    u.find? loc = some (.file content) ↔ t.find? loc = some (.file content) := by
  obtain same | ⟨missing, made⟩ := grows.find? loc
  · rw [same]
  · simp [missing, made]

theorem readFile (grows : t.Grows u) (read : t.readFile p = .ok content) :
    u.readFile p = .ok content := by
  obtain ⟨loc, located, found⟩ := exists_of_readFile read
  obtain ⟨clear, led⟩ := locate_eq_ok_iff.mp located
  exact readFile_eq_ok (locate_eq_ok_iff.mpr ⟨clear, grows.keepsDirectories.resolve led⟩)
    (grows.file_iff.mpr found)

theorem makeDirectory (made : t.makeDirectory p = .ok u) : t.Grows u := by
  unfold FileTree.makeDirectory at made
  cases located : t.locate p with
  | error e => simp [located, bind, Except.bind] at made
  | ok place =>
      simp only [located, bind, Except.bind] at made
      split at made
      · cases made
      · next free =>
          obtain rfl : t.insert place .directory = u := Except.ok.inj made
          have filled : place ≠ [] := ne_nil_of_find? (t := t) (by simp [free])
          refine ⟨rfl, fun loc => ?_⟩
          by_cases here : loc = place
          · subst here
            exact .inr ⟨free, find?_insert_self t .directory filled⟩
          · exact .inl (find?_insert_of_ne t .directory here)

theorem makeDirectories (t : FileTree) (p : Path) : t.Grows (t.makeDirectories p).1 := by
  rw [FileTree.makeDirectories.eq_def]
  split
  · next made => exact makeDirectory made
  · next e refused =>
      by_cases missing : isMissing e
      · rw [if_pos missing]
        by_cases root : p.parts = []
        · rw [dif_pos root]
          exact refl t
        · rw [dif_neg root]
          have above := makeDirectories t p.parent
          rcases outcome : t.makeDirectories p.parent with ⟨w, failed⟩
          rw [outcome] at above
          cases failed with
          | some e => exact above
          | none =>
              dsimp only
              split
              · next made => exact above.trans (makeDirectory made)
              · split <;> exact above
      · rw [if_neg missing]
        split <;> exact refl t
termination_by p.parts.length
decreasing_by
  have := List.length_pos_iff.mpr root
  simp only [Path.parent_parts, List.length_dropLast]
  omega

end Grows

/-- A directory that is there is not made. -/
theorem makeDirectories_of_directory (located : t.locate p = .ok loc)
    (found : t.find? loc = some .directory) : t.makeDirectories p = (t, none) := by
  have refused : t.makeDirectory p = .error (refuse .exists [p]) := by
    simp only [makeDirectory, located, bind, Except.bind, found]
  have there : t.isDirectory p = true := by
    simp only [isDirectory, located, found, decide_true]
  rw [makeDirectories.eq_def, refused]
  dsimp only
  rw [if_neg (by simp [isMissing, refuse]), if_pos there]

/-- A file that is changed holds what it is changed to; one that was missing is made. -/
theorem readFile_of_updateFile {f : Bytes → Bytes} (updated : t.updateFile p f = .ok u) :
    ∃ old, (t.readFile p = .ok old ∨ (∀ content, t.readFile p ≠ .ok content) ∧ old = []) ∧
      u.readFile p = .ok (f old) := by
  unfold updateFile at updated
  cases located : t.locate p with
  | error e => simp [located, bind, Except.bind] at updated
  | ok loc =>
      simp only [located, bind, Except.bind] at updated
      obtain ⟨clear, led⟩ := locate_eq_ok_iff.mp located
      have read (new : Bytes) (free : t.find? loc ≠ some .directory) :
          (t.insert loc (.file new)).readFile p = .ok new := by
        have led' := (keepsDirectories_insert (.file new) free).resolve led
        exact readFile_eq_ok (locate_eq_ok_iff.mpr ⟨clear, led'⟩)
          (find?_insert_self t _ (ne_nil_of_find? free))
      split at updated
      · next old found =>
          obtain rfl := Except.ok.inj updated
          exact ⟨old, .inl (readFile_eq_ok located found), read _ (by simp [found])⟩
      · cases updated
      · next missing =>
          obtain rfl := Except.ok.inj updated
          refine ⟨[], .inr ⟨fun content there => ?_, rfl⟩, read _ (by simp [missing])⟩
          obtain ⟨loc', located', found⟩ := exists_of_readFile there
          obtain rfl : loc = loc' := Except.ok.inj (located.symm.trans located')
          rw [missing] at found
          cases found

theorem locate_of_nul (nul : p.toString.toList.contains '\x00' = true) :
    t.locate p = .error .nulByte := by
  rw [locate, if_pos nul]

/-- The operating system answers unless it cannot be asked. -/
theorem readFile_error {e : FileError} (failed : t.readFile p = .error e) :
    (∃ refusal, e = .os refusal) ∨ p.toString.toList.contains '\x00' = true := by
  by_cases nul : p.toString.toList.contains '\x00' = true
  · exact .inr nul
  · refine .inl ?_
    unfold readFile locate at failed
    rw [if_neg nul] at failed
    cases resolved : t.resolve p with
    | error errno =>
        rw [resolved] at failed
        exact ⟨_, (Except.error.inj failed).symm⟩
    | ok loc =>
        simp only [resolved, bind, Except.bind, mapError_ok] at failed
        split at failed
        · cases failed
        · exact ⟨_, (Except.error.inj failed).symm⟩
        · exact ⟨_, (Except.error.inj failed).symm⟩

theorem Vacant.readFile_ne (vacant : t.Vacant p) : t.readFile p ≠ .ok content := by
  intro read
  exact vacant content ((Grows.makeDirectories t p.parent).readFile read)

/-- Every node but the root stands in a directory. -/
def Rooted (t : FileTree) : Prop :=
  ∀ loc name, t.find? (loc ++ [name]) ≠ none → t.find? loc = some .directory

theorem Rooted.find?_append (rooted : t.Rooted) (missing : t.find? loc = none)
    (names : List String) : t.find? (loc ++ names) = none := by
  induction names using List.reverseRecOn with
  | nil => rwa [List.append_nil]
  | append_singleton names name ih =>
      by_contra there
      rw [← List.append_assoc] at there
      rw [rooted _ _ there] at ih
      cases ih

/-- Where no name leads back up, a walk ends below every place that it passes. -/
theorem prefix_of_walk {start : Location} {names : List String} (down : ".." ∉ names)
    (walked : t.walk start names = .ok loc) : start <+: loc := by
  rw [eq_of_walk walked]
  clear walked
  induction names generalizing start with
  | nil => exact List.prefix_rfl
  | cons name names ih =>
      obtain ⟨other, later⟩ := List.ne_and_not_mem_of_not_mem_cons down
      rw [List.foldl_cons, Path.advance]
      split
      · exact ih later
      · rw [if_neg (Ne.symm other)]
        exact (List.prefix_append start [name]).trans (ih later)

/-- Where no name leads back up, directories that are made lead to no other file. -/
theorem Rooted.walk_of_grows (rooted : t.Rooted) (grows : t.Grows u) {start : Location}
    {names : List String} (down : ".." ∉ names) (walked : u.walk start names = .ok loc)
    (there : t.find? loc ≠ none) : t.walk start names = .ok loc := by
  induction names generalizing start with
  | nil => exact walked
  | cons name names ih =>
      obtain ⟨other, later⟩ := List.ne_and_not_mem_of_not_mem_cons down
      have kept : u.find? start = t.find? start := by
        obtain same | ⟨missing, -⟩ := grows.find? start
        · exact same
        · obtain ⟨rest, rfl⟩ := prefix_of_walk down walked
          exact absurd (rooted.find?_append missing rest) there
      rw [walk, kept] at walked
      rw [walk]
      split at walked
      · cases walked
      · cases walked
      · split at walked
        · next dot =>
            rw [if_pos dot]
            exact ih later walked
        · next no_dot =>
            rw [if_neg (Ne.symm other)] at walked
            rw [if_neg no_dot, if_neg (Ne.symm other)]
            split at walked
            · cases walked
            · next short =>
                rw [if_neg short]
                exact ih later walked

/-- Where a path does not lead back up, a file that is not there is not found once directories are
made either. -/
theorem vacant_of_missing (rooted : t.Rooted) (down : ".." ∉ p.parts)
    (missing : ∀ content, t.readFile p ≠ .ok content) : t.Vacant p := by
  intro content read
  have grows := Grows.makeDirectories t p.parent
  obtain ⟨loc, located, found⟩ := exists_of_readFile read
  have found' := grows.file_iff.mp found
  obtain ⟨clear, led⟩ := locate_eq_ok_iff.mp located
  refine missing content (readFile_eq_ok (locate_eq_ok_iff.mpr ⟨clear, ?_⟩) found')
  unfold resolve at led ⊢
  split at led
  · cases led
  · next short =>
      rw [grows.cwd] at led
      rw [if_neg short]
      exact rooted.walk_of_grows grows down led (by simp [found'])

end FileTree

end WordMachine
