import WordMachine.Proofs.AtomicReplacement
import WordMachine.Proofs.CommandReport
import WordMachine.Proofs.Escapes

/-!
# Obstacles to saving

A snapshot or a dump that cannot be written is reported as such, and a command says so. Clearing up
behind a refusal can meet an obstacle of its own, though: a directory beside the target, something
on the way there that is no directory, or a name that has become too long. That refusal is not
reported, and the command does not end. Obstacles are files and directories where they should not be
and names that are too long; links, permissions and full disks are not among them.
-/

namespace WordMachine

namespace FileTree

/-- What keeps a file from being removed, unless it is just missing. -/
def obstacle? (t : FileTree) (p : Path) : Option Errno :=
  match t.resolve p with
  | .error .noEntry => none
  | .error errno => some errno
  | .ok loc => if t.find? loc = some .directory then some .isDirectory else none

variable {t : FileTree} {p target beside : Path} {content : Bytes} {errno : Errno}

theorem walk_error {start : Location} {names : List String}
    (failed : t.walk start names = .error errno) :
    errno = .noEntry ∨ errno = .notDirectory ∨ errno = .nameTooLong := by
  induction names generalizing start with
  | nil => cases failed
  | cons name names ih =>
      rw [walk] at failed
      split at failed
      · exact .inl (Except.error.inj failed).symm
      · exact .inr (.inl (Except.error.inj failed).symm)
      · split at failed
        · exact ih failed
        · split at failed
          · exact ih failed
          · split at failed
            · exact .inr (.inr (Except.error.inj failed).symm)
            · exact ih failed

/-- The obstacles there are: a directory, something on the way that is none, too long a name. -/
theorem obstacle_kinds (met : t.obstacle? p = some errno) :
    errno = .isDirectory ∨ errno = .notDirectory ∨ errno = .nameTooLong := by
  unfold obstacle? at met
  split at met
  · cases met
  · next known other failed =>
      obtain rfl : known = errno := Option.some.inj met
      refine .inr ?_
      unfold resolve at failed
      split at failed
      · exact .inr (Except.error.inj failed).symm
      · exact (walk_error failed).resolve_left other
  · split at met
    · exact .inl (Option.some.inj met).symm
    · cases met

theorem locate_of_clear (clear : p.toString.toList.contains '\x00' = false) :
    t.locate p = (t.resolve p).mapError (refuse · [p]) := by
  rw [locate, clear]
  rfl

/-- A file that cannot be removed cannot be written either. -/
theorem refused_of_obstacle (clear : p.toString.toList.contains '\x00' = false)
    (met : t.obstacle? p = some errno) (content : Bytes) :
    t.writeFile p content = .error (refuse errno [p]) ∧
      t.removeFile p = .error (refuse errno [p]) ∧ errno ≠ .noEntry := by
  have located := locate_of_clear (t := t) clear
  unfold obstacle? at met
  cases resolved : t.resolve p with
  | error other =>
      rw [resolved] at met located
      obtain ⟨rfl, known⟩ : other = errno ∧ errno ≠ .noEntry := by
        cases other <;> cases met <;> exact ⟨rfl, nofun⟩
      simp [writeFile, updateFile, removeFile, located, bind, Except.bind, known]
  | ok loc =>
      rw [resolved] at met located
      dsimp only at met
      split at met
      · next found =>
          obtain rfl : .isDirectory = errno := Option.some.inj met
          simp [writeFile, updateFile, removeFile, located, bind, Except.bind, found]
      · cases met

theorem refused_of_stuck (clear : p.toString.toList.contains '\x00' = false)
    (stuck : ∀ start, t.locate p = .ok start → t.find? start = some .directory)
    (met : t.obstacle? p = none) (content : Bytes) :
    t.writeFile p content = .error (refuse .noEntry [p]) ∧
      t.removeFile p = .error (refuse .noEntry [p]) := by
  have located := locate_of_clear (t := t) clear
  unfold obstacle? at met
  cases resolved : t.resolve p with
  | error other =>
      rw [resolved] at met located
      obtain rfl : other = .noEntry := by cases other <;> first | rfl | cases met
      simp [writeFile, updateFile, removeFile, located, bind, Except.bind]
  | ok loc =>
      rw [resolved] at met located
      simp [stuck loc located] at met

/-- A replacement that meets an obstacle ends with what the clearing up is refused for. -/
theorem replaceFile_of_obstacle (named : target.appendToName ".tmp" = some beside)
    (clear : beside.toString.toList.contains '\x00' = false)
    (met : t.obstacle? beside = some errno) :
    (t.replaceFile target content).2 = .error (.unhandled (refuse errno [beside])) := by
  obtain ⟨written, removed, other⟩ := refused_of_obstacle clear met content
  have there : isMissing (.os ⟨errno, [beside.toString]⟩) = false := by
    cases errno <;> first | rfl | exact absurd rfl other
  simp only [replaceFile, named, written, clearAfter, removed]
  simp [refuse, there]

/-- Without an obstacle a replacement is done or refused. -/
theorem replaceFile_of_no_obstacle (content : Bytes)
    (named : target.appendToName ".tmp" = some beside)
    (clear : beside.toString.toList.contains '\x00' = false) (met : t.obstacle? beside = none) :
    (t.replaceFile target content).2 = .ok () ∨
      ∃ refusal, (t.replaceFile target content).2 = .error (.refused refusal) := by
  obtain ⟨_, _, _, _, _, _, done⟩ | ⟨e, stuck, _⟩ | ⟨_, refusal, _, _, refused⟩ :=
    replaceFile_cases t content named
  · exact .inl (congrArg Prod.snd done)
  · obtain ⟨written, removed⟩ := refused_of_stuck clear stuck met content
    refine .inr ⟨⟨.noEntry, [beside.toString]⟩, ?_⟩
    simp only [replaceFile, named, written, clearAfter, removed]
    simp [isMissing, refuse]
  · exact .inr ⟨refusal, congrArg Prod.snd refused⟩

end FileTree

namespace Host

variable {h : Host} {target beside : Path} {saved : Saved} {content : Bytes} {errno : Errno}

/-- Saving is done or refused with a report, unless there is an obstacle beside the target. -/
theorem writeSaved_outcome (h : Host) (named : target.appendToName ".tmp" = some beside)
    (clear : beside.toString.toList.contains '\x00' = false) (encoded : saved.bytes = .ok content) :
    match h.files.obstacle? beside with
    | some errno => (h.writeSaved target saved).2 = .error (.file (.os ⟨errno, [beside.toString]⟩))
    | none => (h.writeSaved target saved).2 = .ok () ∨
        ∃ refusal, (h.writeSaved target saved).2 = .error (.snapshot (.unwritable target refusal))
    := by
  rw [(h.writeSaved_eq target encoded).2]
  split
  · next errno met =>
      rw [FileTree.replaceFile_of_obstacle named clear met]
      rfl
  · next met =>
      obtain done | ⟨refusal, refused⟩ :=
        FileTree.replaceFile_of_no_obstacle content named clear met
      · exact .inl (by rw [done])
      · exact .inr ⟨refusal, by rw [refused]⟩

end Host

namespace Command

/-- What a command writes, the path that it goes to and how a failure is reported. -/
inductive Writes : Command → Debugger → Path → Saved → String → Prop where
  | save {d : Debugger} {target : Path} (placed : d.snapshotFile = some target) :
      Writes .save d target (.snapshot d.machine.snapshot) "save failed: "
  | dump {d : Debugger} {target : Path} (placed : d.dumpFile = some target) :
      Writes .dump d target (.memory (d.machine.memory.toList.map fun w => (w.toNat : Int)))
        "dump failed: "

variable {c : Command} {d : Debugger} {target beside : Path} {saved : Saved} {problem : String}

theorem Writes.encoded (writes : Writes c d target saved problem) :
    ∃ content, saved.bytes = .ok content := by
  cases writes with
  | save => exact ⟨_, Snapshot.encode_eq (by simp [Machine.snapshot, Snapshot.capture])⟩
  | dump => exact ⟨_, Memory.encodeCells_toList _⟩

theorem EndsAs.run {before : String} {written : Except Failure Unit} {argv : List String}
    (carried : EndsAs before problem written (c.carryOut d argv)) :
    EndsAs before problem written (c.run d argv) := by
  obtain ⟨preempted, debugger⟩ := c.run_fst d argv
  have told : (c.run d argv).1.told = (c.carryOut d argv).1.told := by
    rw [debugger]
    rfl
  have outcome : (c.run d argv).2 = (c.carryOut d argv).2 := by
    unfold Command.run
    split <;> next ran => rw [ran]
  unfold EndsAs at carried ⊢
  rwa [told, outcome]

/-- A command that writes a file ends as the writing does, whatever arguments it ignores. -/
theorem run_endsAs (writes : Writes c d target saved problem) (attached : d.attached = true)
    (argv : List String) :
    EndsAs d.told problem (d.host.writeSaved target saved).2 (c.run d argv) := by
  obtain ⟨content, encoded⟩ := writes.encoded
  obtain ⟨journal, ignored⟩ := c.ignoring_eq d argv
  have told : (d.withJournal journal).told = d.told := by rw [← ignored, d.told_ignoring]
  have written : ((d.withJournal journal).host.writeSaved target saved).2 =
      (d.host.writeSaved target saved).2 := by
    rw [(Host.writeSaved_eq _ target encoded).2, (Host.writeSaved_eq _ target encoded).2]
    rfl
  apply EndsAs.run
  rw [← told, ← written]
  cases writes with
  | save placed =>
      have carried : carryOut .save d argv = runSave (d.withJournal journal) := by
        simp only [carryOut, ignored, Debugger.withJournal, attached]
        rfl
      rw [carried]
      exact runSave_endsAs (d := d.withJournal journal) placed
  | dump placed =>
      have carried : carryOut .dump d argv = runDump (d.withJournal journal) := by
        simp only [carryOut, ignored, Debugger.withJournal, attached]
        rfl
      rw [carried]
      exact runDump_endsAs (d := d.withJournal journal) placed

/-- A command ends with a report, or meets an obstacle and does not end. -/
theorem run_outcome (writes : Writes c d target saved problem) (attached : d.attached = true)
    (named : target.appendToName ".tmp" = some beside)
    (clear : beside.toString.toList.contains '\x00' = false) (argv : List String) :
    match d.host.files.obstacle? beside with
    | some errno => (c.run d argv).2 = .error (.file (.os ⟨errno, [beside.toString]⟩))
    | none =>
        (c.run d argv).2 = .ok {} ∧ Continues d.told "[DBG] " (c.run d argv).1.told ∨
          (c.run d argv).2 = .ok { status := 2 } ∧
            Continues d.told ("error: " ++ problem) (c.run d argv).1.told := by
  obtain ⟨content, encoded⟩ := writes.encoded
  have outcome := d.host.writeSaved_outcome named clear encoded
  have ends := run_endsAs writes attached argv
  split at outcome
  · rw [outcome] at ends
    exact ends.1
  · obtain done | ⟨refusal, refused⟩ := outcome
    · rw [done] at ends
      exact .inl ends
    · rw [refused] at ends
      exact .inr ends

end Command

/-- A snapshot or a dump is saved or refused as such, and the command that saves it ends with a
report, unless there is an obstacle beside the target: then the refusal to remove what is there is
raised, out of the command too. Reading a snapshot fails in the one way only. -/
theorem saving_outcome {target beside : Path} (named : target.appendToName ".tmp" = some beside)
    (clean : target.Clean) :
    (∀ (h : Host) (saved : Saved) (content : Bytes), saved.bytes = .ok content →
      match h.files.obstacle? beside with
      | some errno =>
          (h.writeSaved target saved).2 = .error (.file (.os ⟨errno, [beside.toString]⟩))
      | none => (h.writeSaved target saved).2 = .ok () ∨
          ∃ refusal, (h.writeSaved target saved).2 =
            .error (.snapshot (.unwritable target refusal))) ∧
    (∀ (h : Host) (e : Failure), (h.readSnapshot target).2 = .error e →
      ∃ cause, e = .snapshot cause) ∧
    ∀ (c : Command) (d : Debugger) (saved : Saved) (problem : String) (argv : List String),
      c.Writes d target saved problem → d.attached = true →
      match d.host.files.obstacle? beside with
      | some errno => (c.run d argv).2 = .error (.file (.os ⟨errno, [beside.toString]⟩))
      | none =>
          (c.run d argv).2 = .ok {} ∧ Continues d.told "[DBG] " (c.run d argv).1.told ∨
            (c.run d argv).2 = .ok { status := 2 } ∧
              Continues d.told ("error: " ++ problem) (c.run d argv).1.told := by
  have clear : beside.toString.toList.contains '\x00' = false := by
    have suffix : ".tmp".toList.contains '\x00' = false := by decide
    rw [FileTree.toString_appendToName named, String.toList_append, List.contains_append,
      clean.toString, suffix]
    rfl
  exact ⟨fun h saved content => h.writeSaved_outcome named clear,
    fun h e => Host.readSnapshot_error clean,
    fun c d saved problem argv writes attached =>
      Command.run_outcome writes attached named clear argv⟩

/-- A directory in the way of a snapshot or of a dump. -/
def blocked (name : String) : Debugger where
  snapshotFile := some { parts := ["snapshot"] }
  dumpFile := some { parts := ["memory"] }
  host := { files := { nodes := [([name], .directory)] } }

/-- The dump meets an obstacle, the snapshot does not. -/
theorem blocked_saving_outcome :
    (Command.run .dump (blocked "memory.tmp") []).2 =
        .error (.file (.os ⟨.isDirectory, ["memory.tmp"]⟩)) ∧
      ((Command.run .save (blocked "memory.tmp") ["now"]).2 = .ok {} ∨
        (Command.run .save (blocked "memory.tmp") ["now"]).2 = .ok { status := 2 }) := by
  have clean (name : String) (plain : '\x00' ∉ name.toList) : Path.Clean { parts := [name] } := by
    refine ⟨by simp, ?_⟩
    simpa using plain
  have named (name : String) : Path.appendToName { parts := [name] } ".tmp" =
      some { parts := [name ++ ".tmp"] } := rfl
  obtain ⟨-, -, dump⟩ := saving_outcome (named "memory") (clean "memory" (by decide))
  obtain ⟨-, -, save⟩ := saving_outcome (named "snapshot") (clean "snapshot" (by decide))
  have met : (blocked "memory.tmp").host.files.obstacle? { parts := ["memory" ++ ".tmp"] } =
      some .isDirectory := by rfl
  have free : (blocked "memory.tmp").host.files.obstacle? { parts := ["snapshot" ++ ".tmp"] } =
      none := by rfl
  have dumped := dump .dump (blocked "memory.tmp") _ _ [] (.dump rfl) rfl
  have saved := save .save (blocked "memory.tmp") _ _ ["now"] (.save rfl) rfl
  rw [met] at dumped
  rw [free] at saved
  exact ⟨dumped, saved.imp And.left And.left⟩

/-- A directory in the way of a snapshot is no error of snapshots, and `save` does not end. -/
theorem blocked_save_raised :
    ((blocked "snapshot.tmp").host.writeSaved { parts := ["snapshot"] }
        (.snapshot (blocked "snapshot.tmp").machine.snapshot)).2 =
        .error (.file (.os ⟨.isDirectory, ["snapshot.tmp"]⟩)) ∧
      (Command.run .save (blocked "snapshot.tmp") []).2 =
        .error (.file (.os ⟨.isDirectory, ["snapshot.tmp"]⟩)) := by
  have clear : (Path.toString { parts := ["snapshot.tmp"] }).toList.contains '\x00' = false := by
    decide
  have met : (blocked "snapshot.tmp").host.files.obstacle? { parts := ["snapshot.tmp"] } =
      some .isDirectory := by rfl
  have writes : Command.Writes .save (blocked "snapshot.tmp") { parts := ["snapshot"] } _ _ :=
    .save rfl
  obtain ⟨content, encoded⟩ := writes.encoded
  have named : Path.appendToName { parts := ["snapshot"] } ".tmp" =
      some { parts := ["snapshot.tmp"] } := rfl
  have written := (blocked "snapshot.tmp").host.writeSaved_outcome named clear encoded
  have ran := Command.run_outcome writes rfl named clear []
  rw [met] at written ran
  exact ⟨written, ran⟩

end WordMachine
