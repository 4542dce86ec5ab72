import WordMachine.Proofs.CommandArguments
import WordMachine.Proofs.CommandReport
import WordMachine.Proofs.SavedState

/-!
# Outcomes of commands

A command is refused or done. When it is refused, an error is reported and nothing but the host has
changed; when it is done, a result is reported and the whole effect has taken place. What goes
wrong with a command gets no further than the report.
-/

namespace WordMachine

theorem Memory.toList_ofValues {values : List Int} {m : Memory} (h : ofValues values = .ok m) :
    (m.toList.map fun w => (w.toNat : Int)) = values.map (· % 65536) := by
  unfold ofValues at h
  split at h
  · obtain rfl := Except.ok.inj h
    simp only [toList, Vector.toList_mk, Word.map_toNat_ofInt]
  · cases h

/-- The cells that a snapshot file gives are those of the machine that goes on from it. -/
theorem Memory.toList_of_decoded {content : Bytes} {s : Snapshot} {m : Memory}
    (decoded : Snapshot.decode content = .ok s) (cells : ofValues s.memory = .ok m) :
    (m.toList.map fun w => (w.toNat : Int)) = s.memory := by
  rw [toList_ofValues cells]
  apply map_mod_of_fitsWord
  unfold Snapshot.decode at decoded
  split at decoded
  · dsimp only at decoded
    split at decoded
    · obtain rfl := Except.ok.inj decoded
      intro v mem
      obtain ⟨w, -, rfl⟩ := List.mem_map.mp (List.mem_of_mem_drop mem)
      exact fitsWord_toNat w
    · cases decoded
  · cases decoded

theorem Memory.encodeCells_toList (m : Memory) :
    Snapshot.encodeCells (m.toList.map fun w => (w.toNat : Int)) = .ok (Word.pack m.toList) := by
  unfold Snapshot.encodeCells
  rw [if_pos (by simp), Word.map_ofInt_toNat]

/-- A dump that was written is what the file holds. -/
theorem Host.readFile_of_writeDump {h : Host} {path : Path} {m : Memory}
    (written : (h.writeDump path (m.toList.map fun w => (w.toNat : Int))).2 = .ok ()) :
    (h.writeDump path (m.toList.map fun w => (w.toNat : Int))).1.files.readFile path =
      .ok (Word.pack m.toList) := by
  unfold writeDump at written ⊢
  simp only [m.encodeCells_toList] at written ⊢
  rcases replaced : h.files.replaceFile path (Word.pack m.toList) with ⟨files, e | done⟩
  · cases e <;> simp [replace, replaced] at written
  · simpa [replace, replaced] using FileTree.readFile_of_replaceFile replaced

theorem Command.readFile_of_runDump {d : Debugger} {outcome : Outcome}
    (ran : (runDump d).2 = .ok outcome) (zero : outcome.status = 0) :
    ∃ path, d.dumpFile = some path ∧
      (runDump d).1.host.files.readFile path = .ok (Word.pack d.machine.memory.toList) := by
  unfold runDump at ran ⊢
  cases file : d.dumpFile with
  | none => simp [file] at ran
  | some path =>
      have holds := @Host.readFile_of_writeDump d.host path d.machine.memory
      simp only [file] at ran ⊢
      rcases written : d.host.writeDump path (d.machine.memory.toList.map fun w => (w.toNat : Int))
        with ⟨host, e | done⟩
      · rw [written] at ran
        cases e with
        | snapshot e =>
            obtain rfl := Except.ok.inj ran
            cases zero
        | _ => cases ran
      · rw [written] at holds
        refine ⟨path, rfl, ?_⟩
        rw [written]
        exact holds rfl

namespace Call

/-- What a command does besides its report, when it does what it is asked to. -/
def Effect (c : Call) : Prop :=
  match c.command with
  | .halt => c.after = { c.before with
      machine := { c.before.machine with running := false }
      preempted := true, host := c.after.host }
  | .set => ∃ argv address value, c.arguments? = some argv ∧
      Command.setArguments argv = .ok (some address, some value) ∧ value ≤ 65535 ∧
      ∃ inside : address < 32776, c.after = { c.before with
        machine := { c.before.machine with
          memory := c.before.machine.memory.set ⟨address, inside⟩ (UInt16.ofNat value) }
        host := c.after.host }
  | .load => ∃ path content s memory, c.before.snapshotFile = some path ∧
      c.before.host.files.readFile path = .ok content ∧ Snapshot.decode content = .ok s ∧
      (memory.toList.map fun w => (w.toNat : Int)) = s.memory ∧
      c.after = { c.before with
        machine := { c.before.machine with
          memory, pc := s.pc, stack := s.stack.reverse, running := true, fault := none }
        pending := [], preempted := true, host := c.after.host }
  | .save => c.after = { c.before with host := c.after.host } ∧
      ∃ path content, c.before.snapshotFile = some path ∧
        c.before.machine.snapshot.encode = .ok content ∧
        c.after.host.files.readFile path = .ok content
  | .dump => c.after = { c.before with host := c.after.host } ∧
      ∃ path, c.before.dumpFile = some path ∧
        c.after.host.files.readFile path = .ok (Word.pack c.before.machine.memory.toList)

/-- The command reports an error and leaves all but the host as it was. -/
structure Refused (c : Call) : Prop where
  told : Continues c.before.told "error: " c.after.told
  kept : c.after = { c.before with host := c.after.host }

/-- The command reports a result and has its whole effect. -/
structure Done (c : Call) : Prop where
  told : Continues c.before.told "[DBG] " c.after.told
  effect : c.Effect

theorem Refused.not_done {c : Call} (h : c.Refused) : ¬c.Done :=
  fun done => h.told.opening_unique done.told

theorem refused_of_fails {c : Call} (fails : ¬c.Succeeds) : c.Refused where
  told := by simpa [fails] using c.continues_after
  kept := by
    rcases c.reaction with
      ⟨host, after, -, -⟩ | ⟨host, cell, value, -, -, succeeds, -⟩ | ⟨host, -, succeeds, -⟩
      | ⟨host, path, s, memory, -, -, -, -, succeeds, -⟩
    · rw [after]
    · exact absurd succeeds fails
    · exact absurd succeeds fails
    · exact absurd succeeds fails

/-- A `set` stores the number that it was given where it was told to. -/
theorem given_of_poke? {c : Call} {cell : Cell} {value : Word}
    (poke : c.poke? = some (cell, value)) :
    ∃ argv address number, c.arguments? = some argv ∧
      Command.setArguments argv = .ok (some address, some number) ∧ number ≤ 65535 ∧
      ∃ inside : address < 32776, cell = ⟨address, inside⟩ ∧ value = UInt16.ofNat number := by
  unfold poke? at poke
  split at poke
  · obtain ⟨argv, words, target⟩ := Option.bind_eq_some_iff.mp poke
    unfold Command.target? at target
    split at target
    · next address number given =>
        obtain ⟨address_given, fits⟩ := Command.setArguments_eq_ok given
        obtain ⟨address, rfl⟩ := Option.isSome_iff_exists.mp address_given
        split at target
        · next inside =>
            obtain ⟨rfl, rfl⟩ := Prod.mk.injEq .. ▸ Option.some.inj target
            exact ⟨argv, address, number, words, given, fits number rfl, inside, rfl, rfl⟩
        · cases target
    · cases target
  · cases poke

/-- A `dump` that succeeds puts the cells into the dump file. -/
theorem dumped {c : Call} (command : c.command = .dump) (h : c.Succeeds) :
    ∃ path, c.before.dumpFile = some path ∧
      c.after.host.files.readFile path = .ok (Word.pack c.before.machine.memory.toList) := by
  obtain ⟨argv, outcome, words, attached, ran, zero⟩ := ran_of_succeeds h (by simp [command])
  obtain ⟨journal, same⟩ := Command.carryOut_dump argv attached
  rw [← command] at same
  rw [same] at ran
  obtain ⟨path, file, holds⟩ := Command.readFile_of_runDump ran zero
  obtain ⟨host, host_files, after⟩ := after_of_ok words (same.trans (Prod.ext rfl ran))
  refine ⟨path, file, ?_⟩
  rw [after]
  show host.files.readFile path = _
  rw [host_files]
  exact holds

theorem effect_of_succeeds {c : Call} (h : c.Succeeds) : c.Effect := by
  rcases c.reaction with
    ⟨host, after, -, fails⟩ | ⟨host, cell, value, poke, command, -, after⟩
    | ⟨host, command, -, after⟩ | ⟨host, path, s, memory, file, read, cells, command, -, after⟩
  · cases command : c.command with
    | halt | load | set => exact absurd h (fails (by simp [command]) (by simp [command]))
    | dump =>
        simp only [Effect, command]
        exact ⟨by rw [after], dumped command h⟩
    | save =>
        simp only [Effect, command]
        exact ⟨by rw [after], saved command h⟩
  · obtain ⟨argv, address, number, words, given, fits, inside, rfl, rfl⟩ := given_of_poke? poke
    simp only [Effect, command]
    exact ⟨argv, address, number, words, given, fits, inside, by rw [after]⟩
  · simp only [Effect, command]
    rw [after]
  · obtain ⟨content, content_read, decoded⟩ := Host.readSnapshot_eq_ok_iff.mp read
    simp only [Effect, command]
    exact ⟨path, content, s, memory, file, content_read, decoded,
      Memory.toList_of_decoded decoded cells, by rw [after]⟩

theorem done_of_succeeds {c : Call} (h : c.Succeeds) : c.Done where
  told := by simpa [h] using c.continues_after
  effect := effect_of_succeeds h

end Call

theorem awaitLine_of_command {feed next : Feed} {d : Debugger} {host : Host} {c : Call}
    (reads : feed.nextLine d.host = (.line c.line, next, host))
    (word : Command.ofName? (commandWord c.line) = some c.command)
    (before : c.before = { d with host, preempted := false }) :
    awaitLine feed d =
      if c.after.preempted then (next, { c.after with preempted := false }, .preempted)
      else awaitLine next c.after := by
  rw [awaitLine_eq, reads]
  simp only [word]
  rw [← before]
  rfl

theorem Debugger.restore_of_wrong_size (d : Debugger) {s : Snapshot}
    (size : s.memory.length ≠ numCells) :
    d.restore s = .error (.cellMismatch s.memory.length) := by
  unfold restore Machine.restored Memory.ofValues
  rw [dif_neg size]
  rfl

/-- A search without a line ends where the feed has none. -/
theorem Awaits.ends {feed : Feed} {d : Debugger} {calls : List Call}
    {result : Feed × Debugger × GuestLine} (h : Awaits feed d calls result) :
    (∀ cause, result.2.2 = .failed cause → ∃ (last : Feed) (host : Host),
      last.nextLine host = (.closed, result.1, result.2.1.host) ∧ cause = .inputClosed ∨
        ∃ e, last.nextLine host = (.failed e, result.1, result.2.1.host) ∧
          cause = .inputFailed e) ∧
    (result.2.2 = .interrupted → ∃ (last : Feed) (host : Host),
      last.nextLine host = (.interrupted, result.1, result.2.1.host)) := by
  induction h with
  | @closed feed next d host reads =>
      refine ⟨?_, by simp⟩
      rintro cause ⟨⟩
      exact ⟨feed, d.host, .inl ⟨reads, rfl⟩⟩
  | @failed feed next d host e reads =>
      refine ⟨?_, by simp⟩
      rintro cause ⟨⟩
      exact ⟨feed, d.host, .inr ⟨e, reads, rfl⟩⟩
  | @interrupted feed next d host reads => exact ⟨by simp, fun _ => ⟨feed, d.host, reads⟩⟩
  | line | preempted => simp
  | command _ _ _ _ _ _ ih => exact ih

namespace Session

/-- When the guest gets no character, either a command took the request away or the feed had no
line; nothing else that goes wrong on the way is seen. -/
theorem nextChar_ends {s t : Session} {delivery : Delivery} (asked : s.nextChar = (t, delivery)) :
    (∀ cause, delivery = .failed cause → ∃ (last : Feed) (host : Host),
      last.nextLine host = (.closed, t.feed, t.debugger.host) ∧ cause = .inputClosed ∨
        ∃ e, last.nextLine host = (.failed e, t.feed, t.debugger.host) ∧ cause = .inputFailed e) ∧
    (delivery = .interrupted → ∃ (last : Feed) (host : Host),
      last.nextLine host = (.interrupted, t.feed, t.debugger.host)) := by
  cases pending : s.debugger.pending with
  | cons c rest =>
      rw [nextChar_of_pending pending] at asked
      obtain ⟨-, rfl⟩ := Prod.mk.injEq .. ▸ asked
      simp
  | nil =>
      rw [nextChar_of_waiting pending] at asked
      have ends := (awaits s.feed s.flushTrace.debugger).ends
      rcases line : awaitLine s.feed s.flushTrace.debugger with ⟨feed, d, outcome⟩
      rw [line] at asked ends
      cases outcome with
      | line text | preempted =>
          obtain ⟨-, rfl⟩ := Prod.mk.injEq .. ▸ asked
          simp
      | failed cause =>
          obtain ⟨rfl, rfl⟩ := Prod.mk.injEq .. ▸ asked
          simpa using ends
      | interrupted =>
          obtain ⟨rfl, rfl⟩ := Prod.mk.injEq .. ▸ asked
          simpa using ends

end Session

/-- Every line that names a command is either refused, with an error, nothing changed and the next
line read, or done, with a result and its whole effect, and only `halt` and `load` then take the
request away. Nothing that goes wrong with a command reaches the guest, and a snapshot of another
size is not restored. -/
theorem commands_all_or_nothing :
    (∀ (feed next : Feed) (d : Debugger) (host : Host) (c : Call),
      feed.nextLine d.host = (.line c.line, next, host) →
      Command.ofName? (commandWord c.line) = some c.command →
      c.before = { d with host, preempted := false } →
      (c.Refused ∧ ¬c.Done ∧ awaitLine feed d = awaitLine next c.after) ∨
      (c.Done ∧ ¬c.Refused ∧ awaitLine feed d =
        if c.command = .halt ∨ c.command = .load then
          (next, { c.after with preempted := false }, .preempted)
        else awaitLine next c.after)) ∧
    (∀ (s t : Session) (delivery : Delivery), s.nextChar = (t, delivery) →
      (∀ cause, delivery = .failed cause → ∃ (last : Feed) (host : Host),
        last.nextLine host = (.closed, t.feed, t.debugger.host) ∧ cause = .inputClosed ∨
          ∃ e, last.nextLine host = (.failed e, t.feed, t.debugger.host) ∧
            cause = .inputFailed e) ∧
      (delivery = .interrupted → ∃ (last : Feed) (host : Host),
        last.nextLine host = (.interrupted, t.feed, t.debugger.host))) ∧
    (∀ (d : Debugger) (s : Snapshot), s.memory.length ≠ 32776 →
      d.restore s = .error (.cellMismatch s.memory.length)) := by
  refine ⟨?_, fun s t delivery => Session.nextChar_ends, fun d s => d.restore_of_wrong_size⟩
  intro feed next d host c reads word before
  have fresh : c.before.preempted = false := by rw [before]
  have preempts := Call.preempted_after_iff fresh
  have goes_on := awaitLine_of_command reads word before
  by_cases succeeds : c.Succeeds
  · have done := Call.done_of_succeeds succeeds
    refine .inr ⟨done, fun refused => refused.not_done done, ?_⟩
    simpa only [preempts, succeeds, and_true] using goes_on
  · have refused := Call.refused_of_fails succeeds
    refine .inl ⟨refused, refused.not_done, ?_⟩
    simpa only [preempts, succeeds, and_false, if_false] using goes_on

/-- Of these two lines the first is done, and the second, for which there is no file, refused. -/
theorem set_and_load_all_or_nothing :
    let set : Call := ⟨.set, "!set 5 7", {}⟩
    let load : Call := ⟨.load, "!load", { set.after with preempted := false }⟩
    set.Done ∧ load.Refused ∧
      awaitLine (.ofLines ["!set 5 7", "!load", "x"]) {} =
        awaitLine (.ofLines ["x"]) load.after := by
  intro set load
  obtain ⟨answers, -, -⟩ := commands_all_or_nothing
  have first := answers (.ofLines ["!set 5 7", "!load", "x"]) (.ofLines ["!load", "x"]) {} {} set
    (Feed.nextLine_ofLines_cons _ _ _) (by decide +kernel) rfl
  have second := answers (.ofLines ["!load", "x"]) (.ofLines ["x"]) set.after set.after.host load
    (Feed.nextLine_ofLines_cons _ _ _) (by decide +kernel) rfl
  rcases first with ⟨refused, -, -⟩ | ⟨done, -, goes_on⟩
  · have stored : set.after.machine.memory.get 5 = 7 := by decide +kernel
    rw [refused.kept] at stored
    exact absurd stored (by decide +kernel)
  · rcases second with ⟨refused, -, goes_on'⟩ | ⟨done', -, -⟩
    · exact ⟨done, refused, goes_on.trans goes_on'⟩
    · obtain ⟨path, content, -, -, file, read, -⟩ := done'.effect
      have missing : (load.before.snapshotFile.bind fun path =>
          (load.before.host.files.readFile path).toOption) = none := by decide +kernel
      rw [file, Option.bind_some, read] at missing
      cases missing

end WordMachine
