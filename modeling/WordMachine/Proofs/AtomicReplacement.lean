import WordMachine.Proofs.FileReplacement
import WordMachine.Proofs.Reachability
import WordMachine.Proofs.SnapshotFormat

/-!
# Atomic replacement

A snapshot or a dump is written beside its file and then moved over it. Each of the two steps can be
refused, and so can clearing up after them, but the file is never seen half written: it holds the
new bytes or is what it was before, and nothing is left beside it. What refuses a step is a name
that is missing, in the way or too long: the trees have no links, permissions or full disks.
-/

namespace WordMachine

namespace FileTree

variable {t u : FileTree} {target beside : Path} {content : Bytes} {start goal loc : Location}

/-- What stands at the end of a path, as far as the path can be followed. -/
def at? (t : FileTree) (p : Path) : Option Node :=
  match t.locate p with
  | .ok loc => t.find? loc
  | .error _ => none

theorem at?_eq (located : t.locate target = .ok loc) : t.at? target = t.find? loc := by
  simp only [at?, located]

theorem walk_append (t : FileTree) (start : Location) (names more : List String) :
    t.walk start (names ++ more) =
      match t.walk start names with
      | .ok loc => t.walk loc more
      | .error e => .error e := by
  induction names generalizing start with
  | nil => rfl
  | cons name names ih =>
      rw [List.cons_append, walk, walk]
      cases t.find? start with
      | none => rfl
      | some node =>
          cases node with
          | file held => rfl
          | directory =>
              dsimp only
              split
              · exact ih start
              · split
                · exact ih start.dropLast
                · split
                  · rfl
                  · exact ih (start ++ [name])

/-- A name leads back, up or down. -/
theorem walk_concat_eq_ok {names : List String} {name : String}
    (walked : t.walk start (names ++ [name]) = .ok goal) :
    ∃ last, t.walk start names = .ok last ∧
      (name = "." ∧ goal = last ∨ name = ".." ∧ goal = last.dropLast ∨ goal = last ++ [name]) := by
  rw [walk_append] at walked
  cases led : t.walk start names with
  | error e => simp [led] at walked
  | ok last =>
      simp only [led, walk] at walked
      refine ⟨last, rfl, ?_⟩
      split at walked
      · cases walked
      · cases walked
      · split at walked
        · next dot => exact .inl ⟨dot, (Except.ok.inj walked).symm⟩
        · split at walked
          · next up => exact .inr (.inl ⟨up, (Except.ok.inj walked).symm⟩)
          · split at walked
            · cases walked
            · exact .inr (.inr (Except.ok.inj walked).symm)

theorem resolve_eq_ok {p : Path} (resolved : t.resolve p = .ok loc) :
    t.walk (if p.isAbsolute then [] else t.cwd) p.parts = .ok loc := by
  unfold resolve at resolved
  split at resolved
  · cases resolved
  · exact resolved

private theorem suffixed_ne (name : String) :
    name ++ ".tmp" ≠ "." ∧ name ++ ".tmp" ≠ ".." ∧ name ++ ".tmp" ≠ name := by
  have long : (name ++ ".tmp").length = name.length + 4 := by rw [String.length_append]; rfl
  refine ⟨?_, ?_, ?_⟩ <;> intro same <;> rw [same] at long
  · have one : ".".length = 1 := rfl
    omega
  · have two : "..".length = 2 := rfl
    omega
  · omega

/-- The file that is written first has a place of its own. -/
theorem resolve_beside_ne (named : target.appendToName ".tmp" = some beside)
    (at_target : t.resolve target = .ok goal) (at_beside : t.resolve beside = .ok start) :
    start ≠ goal := by
  obtain ⟨name, last, rfl⟩ := Option.map_eq_some_iff.mp named
  obtain ⟨names, parts⟩ := List.getLast?_eq_some_iff.mp last
  have to_target := resolve_eq_ok at_target
  have to_beside := resolve_eq_ok at_beside
  simp only [Path.isAbsolute, parts, List.dropLast_concat] at to_target to_beside
  obtain ⟨place, led, ends⟩ := walk_concat_eq_ok to_target
  obtain ⟨place', led', ends'⟩ := walk_concat_eq_ok to_beside
  obtain rfl : place = place' := Except.ok.inj (led.symm.trans led')
  obtain ⟨no_dot, no_up, longer⟩ := suffixed_ne name
  obtain ⟨dot, -⟩ | ⟨up, -⟩ | rfl := ends'
  · exact absurd dot no_dot
  · exact absurd up no_up
  · obtain ⟨-, rfl⟩ | ⟨-, rfl⟩ | rfl := ends <;> intro same
    · have size := congrArg List.length same
      rw [List.length_append, List.length_singleton] at size
      omega
    · have size := congrArg List.length same
      rw [List.length_append, List.length_singleton, List.length_dropLast] at size
      omega
    · exact longer (List.singleton_inj.mp (List.append_cancel_left same))

/-- Two trees in which the same paths lead to the same places. -/
structure SameWays (t u : FileTree) : Prop where
  into : t.KeepsDirectories u
  back : u.KeepsDirectories t

namespace SameWays

theorem refl (t : FileTree) : t.SameWays t := ⟨⟨rfl, fun _ h => h⟩, ⟨rfl, fun _ h => h⟩⟩

theorem resolve_iff (same : t.SameWays u) (p : Path) (loc : Location) :
    u.resolve p = .ok loc ↔ t.resolve p = .ok loc :=
  ⟨same.back.resolve, same.into.resolve⟩

theorem locate_iff (same : t.SameWays u) (p : Path) (loc : Location) :
    u.locate p = .ok loc ↔ t.locate p = .ok loc := by
  rw [locate_eq_ok_iff, locate_eq_ok_iff, same.resolve_iff]

theorem at?_eq (same : t.SameWays u) {p : Path}
    (kept : ∀ loc, t.locate p = .ok loc → u.find? loc = t.find? loc) : u.at? p = t.at? p := by
  unfold at?
  cases located : t.locate p with
  | ok loc => simp only [(same.locate_iff p loc).mpr located, kept loc located]
  | error e =>
      cases located' : u.locate p with
      | ok loc =>
          have led := (same.locate_iff p loc).mp located'
          rw [located] at led
          cases led
      | error e' => rfl

/-- Files come and go without closing or opening a way. -/
theorem of_find? (cwd : u.cwd = t.cwd)
    (kept : ∀ loc, u.find? loc = t.find? loc ∨
      t.find? loc ≠ some .directory ∧ u.find? loc ≠ some .directory) : t.SameWays u where
  into := by
    refine ⟨cwd, fun loc found => ?_⟩
    obtain same | ⟨free, -⟩ := kept loc
    · exact same.trans found
    · exact absurd found free
  back := by
    refine ⟨cwd.symm, fun loc found => ?_⟩
    obtain same | ⟨-, free⟩ := kept loc
    · exact same.symm.trans found
    · exact absurd found free

end SameWays

theorem cwd_relocate (t : FileTree) (start goal : Location) (content : Bytes) :
    (t.relocate start goal content).cwd = t.cwd := t.cwd_unlink goal

theorem find?_relocate_of_ne (t : FileTree) (content : Bytes) (other : loc ≠ goal)
    (filled : loc ≠ []) :
    (t.relocate start goal content).find? loc = if loc = start then none else t.find? loc := by
  have inserted := find?_insert_of_ne ((t.unlink goal).erase start) (.file content) other
  unfold relocate
  refine inserted.trans ?_
  rw [find?_erase _ filled, find?_unlink, find?_erase_of_ne _ other]

theorem find?_unlink_insert_of_ne (other : loc ≠ start) :
    ((t.insert start (.file content)).unlink start).find? loc = t.find? loc := by
  rw [find?_unlink, find?_erase_of_ne _ other, find?_insert_of_ne _ _ other]

theorem find?_unlink_self (t : FileTree) (filled : loc ≠ []) : (t.unlink loc).find? loc = none := by
  rw [find?_unlink, find?_erase _ filled, if_pos rfl]

theorem writeFile_of_locate (content : Bytes) (located : t.locate beside = .ok start)
    (free : t.find? start ≠ some .directory) :
    t.writeFile beside content = .ok (t.insert start (.file content)) := by
  simp only [writeFile, updateFile, located, bind, Except.bind]
  cases found : t.find? start with
  | none => rfl
  | some node =>
      cases node with
      | file held => rfl
      | directory => exact absurd found free

theorem removeFile_of_locate (located : t.locate beside = .ok start)
    (found : t.find? start = some (.file content)) : t.removeFile beside = .ok (t.unlink start) := by
  simp only [removeFile, located, bind, Except.bind, found]

theorem clearAfter_of_stuck (e : FileError)
    (stuck : ∀ start, t.locate beside = .ok start → t.find? start = some .directory) :
    (t.clearAfter beside e).1 = t := by
  have removed : ∃ e, t.removeFile beside = .error e := by
    unfold removeFile
    cases located : t.locate beside with
    | error e => exact ⟨e, rfl⟩
    | ok start =>
        simp only [bind, Except.bind, stuck start located]
        exact ⟨_, rfl⟩
  obtain ⟨e', removed⟩ := removed
  unfold clearAfter
  cases e <;> simp only [removed]

theorem clearAfter_of_written {refusal : Refusal} (located : t.locate beside = .ok start)
    (found : t.find? start = some (.file content)) :
    t.clearAfter beside (.os refusal) = (t.unlink start, .error (.refused refusal)) := by
  simp only [clearAfter, removeFile_of_locate located found]

theorem moveFile_error {source : Path} {e : FileError}
    (moved : t.moveFile source target = .error e) : ∃ refusal, e = .os refusal := by
  unfold moveFile at moved
  cases source_at : t.resolve source with
  | error errno =>
      rw [source_at] at moved
      exact ⟨_, (Except.error.inj moved).symm⟩
  | ok start =>
      cases target_at : t.resolve target with
      | error errno =>
          rw [source_at, target_at] at moved
          exact ⟨_, (Except.error.inj moved).symm⟩
      | ok goal =>
          simp only [source_at, target_at, bind, Except.bind, mapError_ok] at moved
          split at moved
          · exact ⟨_, (Except.error.inj moved).symm⟩
          · split at moved <;> first
              | exact ⟨_, (Except.error.inj moved).symm⟩
              | cases moved

/-- The three outcomes of a replacement: the new file stands at the target, nothing could be
written, or what was written is taken away again. -/
theorem replaceFile_cases (t : FileTree) (content : Bytes)
    (named : target.appendToName ".tmp" = some beside) :
    (∃ start goal, t.locate beside = .ok start ∧ t.locate target = .ok goal ∧
      t.find? start ≠ some .directory ∧ t.find? goal ≠ some .directory ∧
      t.replaceFile target content =
        ((t.insert start (.file content)).relocate start goal content, .ok ())) ∨
    (∃ e, (∀ start, t.locate beside = .ok start → t.find? start = some .directory) ∧
      t.replaceFile target content = (t, .error e)) ∨
    (∃ start refusal, t.locate beside = .ok start ∧ t.find? start ≠ some .directory ∧
      t.replaceFile target content =
        ((t.insert start (.file content)).unlink start, .error (.refused refusal))) := by
  by_cases stuck : ∀ start, t.locate beside = .ok start → t.find? start = some .directory
  · refine .inr (.inl ?_)
    cases written : t.writeFile beside content with
    | ok v =>
        obtain ⟨start, located, free, -⟩ := writeFile_eq_ok written
        exact absurd (stuck start located) free
    | error e =>
        have cleared := clearAfter_of_stuck e stuck
        cases outcome : (t.clearAfter beside e).2 with
        | ok done => exact absurd outcome (clearAfter_ne_ok t beside e)
        | error e' =>
            refine ⟨e', stuck, ?_⟩
            simp only [replaceFile, named, written]
            exact Prod.ext cleared outcome
  · push Not at stuck
    obtain ⟨start, located, free⟩ := stuck
    have written := writeFile_of_locate content located free
    have filled := ne_nil_of_find? free
    have same : t.SameWays (t.insert start (.file content)) := by
      refine SameWays.of_find? rfl fun loc => ?_
      by_cases here : loc = start
      · subst here
        exact .inr ⟨free, by simp [find?_insert_self t _ filled]⟩
      · exact .inl (find?_insert_of_ne t _ here)
    have located' := (same.locate_iff beside start).mpr located
    have held := find?_insert_self t (.file content) filled
    cases moved : (t.insert start (.file content)).moveFile beside target with
    | error e =>
        refine .inr (.inr ?_)
        obtain ⟨refusal, rfl⟩ := moveFile_error moved
        refine ⟨start, refusal, located, free, ?_⟩
        simp only [replaceFile, named, written, moved]
        exact clearAfter_of_written located' held
    | ok v =>
        refine .inl ?_
        obtain ⟨start', goal, moved_content, at_beside, at_target, found, goal_free, rfl⟩ :=
          moveFile_eq_ok moved
        obtain ⟨clear, at_beside'⟩ := locate_eq_ok_iff.mp located'
        obtain rfl : start' = start := Except.ok.inj (at_beside.symm.trans at_beside')
        obtain rfl : content = moved_content := by
          rw [held] at found
          simpa using found
        have clear' := contains_nul_of_appendToName named clear
        have other := resolve_beside_ne named at_target at_beside
        refine ⟨start', goal, located, ?_, free, ?_, ?_⟩
        · exact (same.locate_iff target goal).mp (locate_eq_ok_iff.mpr ⟨clear', at_target⟩)
        · rw [← find?_insert_of_ne t (.file content) other.symm]
          exact goal_free
        · simp only [replaceFile, named, written, moved]

/-- A replacement changes the file at the target and the one beside it, and no other. -/
theorem find?_replaceFile (named : target.appendToName ".tmp" = some beside)
    (not_target : t.locate target ≠ .ok loc) (not_beside : t.locate beside ≠ .ok loc) :
    (t.replaceFile target content).1.find? loc = t.find? loc := by
  obtain ⟨start, goal, at_beside, at_target, free, -, replaced⟩ | ⟨e, -, replaced⟩ |
      ⟨start, e, at_beside, free, replaced⟩ := replaceFile_cases t content named
    <;> rw [replaced]
  · have other : loc ≠ goal := fun here => not_target (here ▸ at_target)
    have other' : loc ≠ start := fun here => not_beside (here ▸ at_beside)
    by_cases root : loc = []
    · simp [find?, root]
    · rw [find?_relocate_of_ne _ _ other root, if_neg other', find?_insert_of_ne _ _ other']
  · have other : loc ≠ start := fun here => not_beside (here ▸ at_beside)
    exact find?_unlink_insert_of_ne other

theorem sameWays_replaceFile (t : FileTree) (content : Bytes)
    (named : target.appendToName ".tmp" = some beside) :
    t.SameWays (t.replaceFile target content).1 := by
  obtain ⟨start, goal, at_beside, at_target, free, goal_free, replaced⟩ | ⟨e, -, replaced⟩ |
      ⟨start, e, at_beside, free, replaced⟩ := replaceFile_cases t content named
    <;> rw [replaced]
  · refine SameWays.of_find? (cwd_relocate ..) fun loc => ?_
    by_cases here : loc = goal
    · subst here
      have moved := find?_relocate_self (t.insert start (.file content)) start content
        (ne_nil_of_find? goal_free)
      exact .inr ⟨goal_free, by simp [moved]⟩
    · by_cases root : loc = []
      · exact .inl (by simp [find?, root])
      · rw [find?_relocate_of_ne _ _ here root]
        by_cases there : loc = start
        · subst there
          exact .inr ⟨free, by simp⟩
        · rw [if_neg there]
          exact .inl (find?_insert_of_ne _ _ there)
  · exact SameWays.refl t
  · refine SameWays.of_find? (cwd_unlink ..) fun loc => ?_
    by_cases here : loc = start
    · subst here
      rw [find?_unlink_self _ (ne_nil_of_find? free)]
      exact .inr ⟨free, by simp⟩
    · exact .inl (find?_unlink_insert_of_ne here)

theorem replaceFile_done (named : target.appendToName ".tmp" = some beside)
    (done : (t.replaceFile target content).2 = .ok ()) :
    (t.replaceFile target content).1.readFile target = .ok content ∧
      (t.replaceFile target content).1.at? beside = none := by
  refine ⟨readFile_of_replaceFile (Prod.ext rfl done), ?_⟩
  have same := sameWays_replaceFile t content named
  obtain ⟨start, goal, at_beside, at_target, free, -, replaced⟩ | ⟨e, -, replaced⟩ |
      ⟨start, e, -, -, replaced⟩ := replaceFile_cases t content named
  · have other := resolve_beside_ne named (locate_eq_ok_iff.mp at_target).2
      (locate_eq_ok_iff.mp at_beside).2
    rw [at?_eq ((same.locate_iff beside start).mpr at_beside), replaced,
      find?_relocate_of_ne _ _ other (ne_nil_of_find? free), if_pos rfl]
  · rw [replaced] at done
    cases done
  · rw [replaced] at done
    cases done

theorem replaceFile_failed {e : ReplaceError} (named : target.appendToName ".tmp" = some beside)
    (failed : (t.replaceFile target content).2 = .error e) :
    (t.replaceFile target content).1.at? target = t.at? target ∧
      ∀ held, (t.replaceFile target content).1.at? beside ≠ some (.file held) := by
  have same := sameWays_replaceFile t content named
  obtain ⟨start, goal, -, -, -, -, replaced⟩ | ⟨e, stuck, replaced⟩ |
      ⟨start, e, at_beside, free, replaced⟩ := replaceFile_cases t content named
  · rw [replaced] at failed
    cases failed
  · rw [replaced]
    refine ⟨rfl, fun held there => ?_⟩
    unfold at? at there
    cases located : t.locate beside with
    | error e => simp [located] at there
    | ok start => simp [located, stuck start located] at there
  · constructor
    · refine same.at?_eq fun goal at_target => ?_
      have other := resolve_beside_ne named (locate_eq_ok_iff.mp at_target).2
        (locate_eq_ok_iff.mp at_beside).2
      rw [replaced]
      exact find?_unlink_insert_of_ne other.symm
    · intro held
      rw [at?_eq ((same.locate_iff beside start).mpr at_beside), replaced,
        find?_unlink_self _ (ne_nil_of_find? free)]
      simp

end FileTree

/-- What a file is replaced by: a snapshot, or the cells of a memory. -/
inductive Saved where
  | snapshot (s : Snapshot)
  | memory (cells : List Int)

def Saved.bytes : Saved → Except Snapshot.Error Bytes
  | .snapshot s => s.encode
  | .memory cells => Snapshot.encodeCells cells

namespace Host

variable {h : Host} {target beside : Path} {saved : Saved} {content : Bytes}

def writeSaved (h : Host) (target : Path) : Saved → Host × Except Failure Unit
  | .snapshot s => h.writeSnapshot target s
  | .memory cells => h.writeDump target cells

/-- Both kinds of files are written in one way: a refusal is an error of snapshots. -/
theorem writeSaved_eq (h : Host) (target : Path) (encoded : saved.bytes = .ok content) :
    (h.writeSaved target saved).1.files = (h.files.replaceFile target content).1 ∧
      (h.writeSaved target saved).2 =
        match (h.files.replaceFile target content).2 with
        | .ok () => .ok ()
        | .error (.refused refusal) => .error (.snapshot (.unwritable target refusal))
        | .error (.unhandled e) => .error (.file e) := by
  cases saved with
  | snapshot s =>
      have encoded : s.encode = .ok content := encoded
      simp only [writeSaved, writeSnapshot, encoded, replace]
      rcases h.files.replaceFile target content with ⟨files, (refusal | e) | done⟩
        <;> exact ⟨rfl, rfl⟩
  | memory cells =>
      have encoded : Snapshot.encodeCells cells = .ok content := encoded
      simp only [writeSaved, writeDump, encoded, replace]
      rcases h.files.replaceFile target content with ⟨files, (refusal | e) | done⟩
        <;> exact ⟨rfl, rfl⟩

theorem writeSaved_cases (h : Host) (target : Path) (encoded : saved.bytes = .ok content) :
    (h.writeSaved target saved).1.files = (h.files.replaceFile target content).1 ∧
      ((h.writeSaved target saved).2 = .ok () ∧ (h.files.replaceFile target content).2 = .ok () ∨
        ∃ e e', (h.writeSaved target saved).2 = .error e ∧
          (h.files.replaceFile target content).2 = .error e') := by
  obtain ⟨files, outcome⟩ := writeSaved_eq h target encoded
  refine ⟨files, ?_⟩
  rw [outcome]
  rcases (h.files.replaceFile target content).2 with (refusal | e) | done
  · exact .inr ⟨_, _, rfl, rfl⟩
  · exact .inr ⟨_, _, rfl, rfl⟩
  · exact .inl ⟨rfl, rfl⟩

theorem readSnapshot_of_read {s : Snapshot} (encoded : s.encode = .ok content)
    (shallow : s.stack.length < 2 ^ 32) (read : h.files.readFile target = .ok content) :
    (h.readSnapshot target).2 = .ok (Snapshot.capture s.pc s.stack s.memory) := by
  have cells : s.memory.length = numCells := by
    unfold Snapshot.encode Snapshot.encodeCells at encoded
    split at encoded
    · assumption
    · cases encoded
  obtain ⟨content', encoded', decoded⟩ := Snapshot.decode_encode cells shallow
  obtain rfl : content' = content := Except.ok.inj (encoded'.symm.trans encoded)
  exact readSnapshot_eq_ok_iff.mpr ⟨content', read, decoded⟩

/-- A file is replaced as a whole or not at all: when the bytes were written they stand at the
target, a snapshot is read back from them, and nothing is left beside it; when they could not be
written the target is what it was and no file is left beside it. Every path leads where it led, and
nothing has changed anywhere else. -/
theorem writeSaved_atomic (h : Host) {target beside : Path} {saved : Saved} {content : Bytes}
    (named : target.appendToName ".tmp" = some beside) (encoded : saved.bytes = .ok content) :
    let after := (h.writeSaved target saved).1
    ((h.writeSaved target saved).2 = .ok () →
      after.files.readFile target = .ok content ∧ after.files.at? beside = none ∧
      ∀ s, saved = .snapshot s → s.stack.length < 2 ^ 32 →
        (after.readSnapshot target).2 = .ok (Snapshot.capture s.pc s.stack s.memory)) ∧
    (∀ e, (h.writeSaved target saved).2 = .error e →
      after.files.at? target = h.files.at? target ∧
      ∀ held, after.files.at? beside ≠ some (.file held)) ∧
    (∀ p loc, after.files.locate p = .ok loc ↔ h.files.locate p = .ok loc) ∧
    (∀ loc, h.files.locate target ≠ .ok loc → h.files.locate beside ≠ .ok loc →
      after.files.find? loc = h.files.find? loc) := by
  obtain ⟨files, outcome⟩ := writeSaved_cases h target encoded
  dsimp only
  rw [files]
  refine ⟨fun done => ?_, fun e failed => ?_, ?_, fun loc => FileTree.find?_replaceFile named⟩
  · obtain ⟨-, replaced⟩ | ⟨e, -, failed, -⟩ := outcome
    · obtain ⟨read, gone⟩ := FileTree.replaceFile_done named replaced
      refine ⟨read, gone, ?_⟩
      rintro s rfl shallow
      exact readSnapshot_of_read encoded shallow (files ▸ read)
    · rw [done] at failed
      cases failed
  · obtain ⟨done, -⟩ | ⟨-, e', -, refused⟩ := outcome
    · rw [done] at failed
      cases failed
    · exact FileTree.replaceFile_failed named refused
  · exact (FileTree.sameWays_replaceFile _ _ named).locate_iff

/-- Old files beside a directory and beside a free place. -/
def crowded : Host where
  files :=
    { nodes := [(["plans"], .directory), (["plans.tmp"], .file [7]), (["notes.tmp"], .file [8])] }

def crowding : Snapshot := ⟨3, [1], List.replicate numCells 0⟩

theorem crowded_writeSaved_atomic :
    let onto (name : String) := (crowded.writeSaved { parts := [name] } (.snapshot crowding)).1
    ((onto "notes").readSnapshot { parts := ["notes"] }).2 =
        .ok (Snapshot.capture crowding.pc crowding.stack crowding.memory) ∧
      (onto "notes").files.at? { parts := ["notes.tmp"] } = none ∧
      (onto "plans").files.at? { parts := ["plans"] } = some .directory ∧
      (∀ held, (onto "plans").files.at? { parts := ["plans.tmp"] } ≠ some (.file held)) ∧
      (onto "plans").files.find? ["notes.tmp"] = some (.file [8]) := by
  have encoded := Snapshot.encode_eq (s := crowding) List.length_replicate
  have bytes : (Saved.snapshot crowding).bytes = _ := encoded
  have beside (name : String) : Path.appendToName { parts := [name] } ".tmp" =
      some { parts := [name ++ ".tmp"] } := rfl
  obtain ⟨done, -, -, -⟩ := writeSaved_atomic crowded (beside "notes") bytes
  obtain ⟨-, failed, -, elsewhere⟩ := writeSaved_atomic crowded (beside "plans") bytes
  have written : (crowded.writeSaved { parts := ["notes"] } (.snapshot crowding)).2 = .ok () := by
    simp only [writeSaved, writeSnapshot, encoded]
    rfl
  have refused : (crowded.writeSaved { parts := ["plans"] } (.snapshot crowding)).2 =
      .error (.snapshot (.unwritable { parts := ["plans"] }
        ⟨.isDirectory, ["plans.tmp", "plans"]⟩)) := by
    simp only [writeSaved, writeSnapshot, encoded]
    rfl
  obtain ⟨-, gone, restored⟩ := done written
  obtain ⟨kept, cleared⟩ := failed _ refused
  exact ⟨restored crowding rfl (by decide), gone, kept, cleared,
    elsewhere ["notes.tmp"] (by decide) (by decide)⟩

end Host

end WordMachine
