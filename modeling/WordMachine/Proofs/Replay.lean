import WordMachine.Proofs.Likeness
import WordMachine.Proofs.SavedState

/-!
# Checkpoints and replay

A session that goes on from the bytes of another one's machine runs as that one does. The same holds
for a snapshot that is saved while the guest waits for a line: the instruction that waits is
the one that a later load goes on with, unless it was itself overwritten in the meantime.
-/

namespace WordMachine

namespace Session

/-- The same input, files, settings and kind of output surround two machines. Traces may differ as
long as they go to no file. -/
structure SameSurroundings (s t : Session) : Prop where
  feed : t.feed = s.feed
  files : t.debugger.host.files = s.debugger.host.files
  setting : t.debugger.setting = s.debugger.setting
  encodes : t.output.encodes = s.output.encodes
  trace : t.trace = s.trace ∨ s.trace.place = none ∧ t.trace.place = none

/-- Two sessions, given the same number of steps, complete equally many and end in the same way,
with equal machines but for the count of cycles, and with the same output on the way. -/
def RunsAlike (s t : Session) : Prop :=
  ∀ n, (t.run n).2 = (s.run n).2 ∧
    (∃ cycles, (t.run n).1.machine = { (s.run n).1.machine with cycles }) ∧
    (t.run n).1.debugger.pending = (s.run n).1.debugger.pending ∧
    ∃ o, (s.run n).1.output.written = s.output.written ++ o ∧
      (t.run n).1.output.written = t.output.written ++ o

theorem Alike.runsAlike {s t : Session} (h : s.Alike s.output.written t.output.written t) :
    s.RunsAlike t := by
  intro n
  obtain ⟨later, ends⟩ := h.run n
  exact ⟨ends, later.machine, later.pending, later.written⟩

theorem runsAlike_cycles (s : Session) (cycles : Nat) :
    s.RunsAlike (s.mapMachine fun m => { m with cycles }) := by
  have written : ∃ o, s.output.written = s.output.written ++ o ∧
      s.output.written = s.output.written ++ o := ⟨#[], by simp, by simp⟩
  exact Alike.runsAlike ⟨⟨cycles, s.debugger.host.journal, s.debugger.preempted, rfl⟩, rfl, written,
    rfl, .inl rfl⟩

/-- A running session between two lines runs as any other one that is given its machine. -/
theorem runsAlike_resumed {v w : Session} {journal : Journal} (sound : v.Sound)
    (running : v.machine.running = true) (waiting : v.debugger.pending = [])
    (same : v.SameSurroundings w) :
    v.RunsAlike { w with debugger := { w.debugger with
      machine := v.machine.resumed w.machine.cycles, pending := []
      host := { w.debugger.host with journal } } } := by
  have healthy : v.machine.fault = none := by
    cases fault : v.machine.fault with
    | none => rfl
    | some f =>
        have fault : v.debugger.machine.fault = some f := fault
        have stopped : v.machine.running = false := sound.stopped (by rw [fault]; rfl)
        rw [running] at stopped
        cases stopped
  have machine : v.machine.resumed w.machine.cycles =
      { v.debugger.machine with cycles := w.machine.cycles } := by
    unfold Machine.resumed
    rw [← running, ← healthy]
    rfl
  obtain ⟨attached, dumpFile, snapshotFile⟩ :
      w.debugger.attached = v.debugger.attached ∧ w.debugger.dumpFile = v.debugger.dumpFile ∧
        w.debugger.snapshotFile = v.debugger.snapshotFile := by
    simpa [Debugger.setting] using same.setting
  -- all that is left of `w` is its journal, its count of cycles and its mark of preemption
  have debugger : { w.debugger with
        machine := v.machine.resumed w.machine.cycles, pending := []
        host := { w.debugger.host with journal } } =
      (v.debugger.retold w.machine.cycles journal).marked w.debugger.preempted := by
    rw [machine]
    simp only [Debugger.retold, Debugger.marked, Host.retold, attached, dumpFile, snapshotFile,
      same.files, waiting]
  exact Alike.runsAlike ⟨⟨_, _, _, debugger⟩, same.feed, ⟨#[], by simp, by simp⟩, same.encodes,
    same.trace⟩

/-- The machine that a command of a step finds is sound. -/
theorem Sound.before_stepCalls {s : Session} (h : s.Sound) {earlier later : List Call} {c : Call}
    (place : s.stepCalls = earlier ++ c :: later) : c.before.Sound := by
  obtain ⟨waiting, pending, -, machine⟩ := waited_stepCalls place
  refine Debugger.Sound.of_frame h ?_ ?_ (pending.trans waiting.symm) ?_
  · rw [machine]
    rfl
  · rw [machine]
    rfl
  · rw [machine]
    exact h.stopped

end Session

namespace Call

/-- A command makes the machine go on as another one, with no line begun. A step that runs the
command ends with that. -/
structure GoesOnAs (r : Call) (m : Machine) : Prop where
  machine : r.after.machine = m.resumed r.before.machine.cycles
  pending : r.after.pending = []
  step : ∀ u : Session, u.machine.running = true → r ∈ u.stepCalls →
    ∃ t, u.step = (t, none) ∧ t.machine = r.after.machine ∧ t.debugger.pending = []

/-- A `load` that finds the bytes of a sound machine makes the machine go on as that one. -/
theorem goesOnAs_of_read {r : Call} {saved : Debugger} {path : Path} {content : Bytes}
    (sound : saved.Sound) (decoded : Snapshot.decode content = .ok saved.machine.snapshot)
    (command : r.command = .load) (h : r.Succeeds) (file : r.before.snapshotFile = some path)
    (read : r.before.host.files.readFile path = .ok content) : r.GoesOnAs saved.machine := by
  obtain ⟨memory, host, cells, after⟩ := loaded command h file read decoded
  obtain rfl : saved.machine.memory = memory :=
    Except.ok.inj (sound.ofValues_snapshot.symm.trans cells)
  rw [sound.snapshot_eq] at after
  have machine : r.after.machine = saved.machine.resumed r.before.machine.cycles := by
    rw [after]
    simp only [List.reverse_reverse]
    rfl
  have pending : r.after.pending = [] := by rw [after]
  refine ⟨machine, pending, ?_⟩
  intro u running mem
  obtain ⟨t, step, left⟩ := Session.step_of_preempting running mem (by rw [after])
  refine ⟨t, step, ?_, ?_⟩
  · rw [Session.machine, left]
  · rw [left]
    exact pending

end Call

/-- A guest that waits for a line and is sent a `save` and a `load`: when the snapshot file can be
written, both are carried out, and what is loaded is what was saved. -/
theorem awaitCalls_save_load {d : Debugger} {path : Path} (lines : List String) (sound : d.Sound)
    (shallow : d.machine.stack.length < 2 ^ 32) (attached : d.attached = true)
    (file : d.snapshotFile = some path)
    (writable : ∀ content, (d.host.files.replaceFile path content).2 = .ok ()) :
    ∃ c r : Call, awaitCalls (.ofLines ("!save" :: "!load" :: lines)) d = [c, r] ∧
      c.command = .save ∧ c.Succeeds ∧ r.command = .load ∧ r.Succeeds ∧
      r.before.snapshotFile = c.before.snapshotFile ∧ r.before.host = c.after.host := by
  obtain ⟨c, saves, c_line, c_before⟩ : ∃ c : Call, c.command = .save ∧ c.line = "!save" ∧
      c.before = { d with preempted := false } := ⟨⟨_, _, _⟩, rfl, rfl, rfl⟩
  obtain ⟨r, loads, r_line, r_before⟩ : ∃ r : Call, r.command = .load ∧ r.line = "!load" ∧
      r.before = { c.after with preempted := false } := ⟨⟨_, _, _⟩, rfl, rfl, rfl⟩
  have c_sound : c.before.Sound := sound.congr (by rw [c_before]) (by rw [c_before])
  have c_words : c.arguments? = some [] := by
    rw [Call.arguments?, c_line]
    decide +kernel
  have r_words : r.arguments? = some [] := by
    rw [Call.arguments?, r_line]
    decide +kernel
  have setting : r.before.setting = c.before.setting := by
    rw [r_before, Debugger.setting_marked, c.setting_after]
  have host : r.before.host = c.after.host := by rw [r_before]
  obtain ⟨saved, loaded⟩ := Call.succeeds_of_load_after_save c_sound
    (by rw [c_before]; exact shallow) saves loads c_words r_words (by rw [c_before, attached])
    (by rw [c_before, file]) (by rw [c_before]; exact writable) setting host
  have stays : c.after.preempted = false :=
    Call.stays_of_other (by rw [c_before]) (by simp [saves]) (by simp [saves])
  have given_up : r.after.preempted = true :=
    (Call.preempted_after_iff (by rw [r_before])).mpr ⟨.inr loads, loaded⟩
  have c_word : Command.ofName? (commandWord "!save") = some c.command := by
    rw [saves]
    decide +kernel
  have r_word : Command.ofName? (commandWord "!load") = some r.command := by
    rw [loads]
    decide +kernel
  refine ⟨c, r, ?_, saves, saved, loads, loaded, congrArg (·.2.2) setting, host⟩
  rw [awaitCalls_ofLines c_word c_line c_before, stays, awaitCalls_ofLines r_word r_line r_before,
    given_up]
  rfl

/-- A `set` in front of the `save` is carried out too. -/
theorem awaitCalls_set_save_load {d : Debugger} {line : String} {argv : List String} {cell : Cell}
    {value : Word} {path : Path} (lines : List String) (sound : d.Sound)
    (shallow : d.machine.stack.length < 2 ^ 32) (attached : d.attached = true)
    (file : d.snapshotFile = some path)
    (writable : ∀ content, (d.host.files.replaceFile path content).2 = .ok ())
    (word : Command.ofName? (commandWord line) = some .set)
    (words : (commandArguments line).toOption.map (·.drop 1) = some argv)
    (target : Command.target? argv = some (cell, value)) :
    ∃ first c r : Call, awaitCalls (.ofLines (line :: "!save" :: "!load" :: lines)) d =
        [first, c, r] ∧
      first.poke? = some (cell, value) ∧ c.command = .save ∧ c.Succeeds ∧ r.command = .load ∧
      r.Succeeds ∧ r.before.snapshotFile = c.before.snapshotFile ∧
      r.before.host = c.after.host := by
  obtain ⟨first, sets, asked, before⟩ : ∃ first : Call, first.command = .set ∧
      first.line = line ∧ first.before = { d with preempted := false } := ⟨⟨_, _, _⟩, rfl, rfl, rfl⟩
  have stays : first.after.preempted = false :=
    Call.stays_of_other (by rw [before]) (by simp [sets]) (by simp [sets])
  have poke : first.poke? = some (cell, value) := by
    have first_attached : first.before.attached = true := by rw [before, attached]
    have first_words : first.arguments? = some argv := by rw [Call.arguments?, asked, words]
    simp [Call.poke?, sets, first_attached, first_words, target]
  have setting : first.after.setting = d.setting := by
    rw [first.setting_after, before, Debugger.setting_marked]
  have files : first.after.host.files = d.host.files := by
    rw [first.files_after (by simp [sets]) (by simp [sets]), before]
  have left : first.after.Sound :=
    Call.sound_after (sound.congr (by rw [before]) (by rw [before]))
  have stack : first.after.machine.stack = d.machine.stack := by
    rw [(Call.waited stays).machine, before]
  obtain ⟨c, r, rest, saves, saved, loads, loaded, same_file, host⟩ :=
    awaitCalls_save_load lines left (by rw [stack]; exact shallow)
      ((congrArg Prod.fst setting).trans attached) ((congrArg (·.2.2) setting).trans file)
      (by rw [files]; exact writable)
  refine ⟨first, c, r, ?_, poke, saves, saved, loads, loaded, same_file, host⟩
  rw [awaitCalls_ofLines (word.trans (by rw [sets])) asked before, stays, rest]
  rfl

namespace Session

/-- A session that is reached loses nothing in the bytes of its machine: any other one that is given
them has its program counter, stack and memory, runs without a fault, and in the same surroundings
goes the same way for any number of steps. The count of cycles never matters. A `save` that is read
while the guest waits finds no line begun and saves the instruction that waits; a `load` of the
file as it was written goes on from the saved machine, with that instruction unless its cells
held something else by then. -/
theorem checkpoint_replay {v : Session} (reached : v.Reachable)
    (shallow : v.machine.stack.length < 2 ^ 32) :
    (∃ content saved, v.machine.snapshot.encode = .ok content ∧
      Snapshot.decode content = .ok saved ∧ ∀ w : Session, ∃ d,
        w.debugger.restore saved = .ok d ∧ d.machine = v.machine.resumed w.machine.cycles ∧
        d.pending = [] ∧
        (v.machine.running = true → v.debugger.pending = [] → v.SameSurroundings w →
          v.RunsAlike { w with debugger := d })) ∧
    (∀ cycles, v.RunsAlike (v.mapMachine fun m => { m with cycles })) ∧
    ∀ earlier c later, v.stepCalls = earlier ++ c :: later → c.command = .save →
      c.before.pending = [] ∧
      c.before.machine = { v.machine with
        memory := v.machine.memory.poked earlier, cycles := v.machine.cycles + 1 } ∧
      (c.Succeeds → ∃ path content saved, c.before.snapshotFile = some path ∧
        c.after.host.files.readFile path = .ok content ∧
        Snapshot.decode content = .ok saved ∧ saved.pc = v.machine.pc ∧
        ∀ r : Call, r.command = .load → r.Succeeds → r.before.snapshotFile = some path →
          r.before.host.files.readFile path = .ok content →
          r.GoesOnAs c.before.machine ∧
          ∀ cell, v.machine.WaitsFor cell →
            (∀ a : Cell, (a : Int) = v.machine.pc ∨ (a : Int) = v.machine.pc + 1 →
              c.before.machine.memory.get a = v.machine.memory.get a) →
            r.after.machine.WaitsFor cell) := by
  have sound := reached.sound
  refine ⟨?_, v.runsAlike_cycles, ?_⟩
  · obtain ⟨content, encoded, decoded⟩ := sound.decode_encode shallow
    refine ⟨content, _, encoded, decoded, ?_⟩
    intro w
    obtain ⟨journal, restored⟩ := sound.restore_snapshot w.debugger
    exact ⟨_, restored, rfl, rfl, runsAlike_resumed sound⟩
  · intro earlier c later place command
    obtain ⟨waiting, pending, -, machine⟩ := waited_stepCalls place
    refine ⟨pending, machine, ?_⟩
    intro succeeds
    have found := sound.before_stepCalls place
    obtain ⟨content, encoded, decoded⟩ := found.decode_encode (by rw [machine]; exact shallow)
    obtain ⟨path, content', file, encoded', read⟩ := Call.saved command succeeds
    obtain rfl : content' = content := Except.ok.inj (encoded'.symm.trans encoded)
    refine ⟨path, content', _, file, read, decoded, ?_, ?_⟩
    · rw [found.snapshot_eq, machine]
    · intro r load loads r_file r_read
      have goes_on := Call.goesOnAs_of_read found decoded load loads r_file r_read
      refine ⟨goes_on, ?_⟩
      intro cell waits kept
      apply waits.of_kept
      · rw [goes_on.machine, machine]
        rfl
      · intro a near
        rw [goes_on.machine]
        exact kept a near

/-- A session whose guest waits for input, with a `save` and a `load` among the lines that are read
while it waits. -/
def rewinding (line : String) : Session where
  debugger := { machine := {
    memory := (Memory.blank.set ⟨0, by decide⟩ 20).set ⟨1, by decide⟩ 32768 } }
  feed := .ofLines [line, "!save", "!load", "x"]

theorem rewinding_reachable (line : String) : (rewinding line).Reachable := by
  have blank : Reachable {} := .fresh rfl rfl
  have first := blank.stored 0 20 rfl
  have second := first.stored 1 32768 rfl
  exact second.elsewhere rfl rfl

theorem rewinding_waitsFor (line : String) :
    (rewinding line).machine.WaitsFor (Memory.registerCell 0) := by
  have upcoming : ∃ i, (rewinding "").machine.upcoming = .ok (i, .await (Memory.registerCell 0)) :=
    ⟨{ opcode := .input, a := 32768 }, by rfl⟩
  exact Machine.waitsFor_iff.mpr upcoming

private theorem rewinding_stepCalls (line : String) (argv : List String) (cell : Cell)
    (value : Word) (word : Command.ofName? (commandWord line) = some .set)
    (words : (commandArguments line).toOption.map (·.drop 1) = some argv)
    (target : Command.target? argv = some (cell, value)) :
    ∃ first c r : Call, (rewinding line).stepCalls = [first, c, r] ∧
      first.poke? = some (cell, value) ∧ c.command = .save ∧ c.Succeeds ∧ r.command = .load ∧
      r.Succeeds ∧ r.before.snapshotFile = c.before.snapshotFile ∧
      r.before.host = c.after.host := by
  obtain ⟨i, upcoming⟩ := Machine.waitsFor_iff.mp (rewinding_waitsFor line)
  have start : (rewinding line).ticked.Sound :=
    (rewinding_reachable line).sound.near (near_ticked _)
  rw [stepCalls_of_await upcoming, calls_of_waiting rfl]
  exact awaitCalls_set_save_load ["x"] start (Nat.zero_lt_succ _) rfl rfl (fun _ => rfl) word words
    target

/-- A halted machine that is given the state of a waiting one runs as that one. The step ends where
it began, with the cell stored and the same instruction to come. -/
theorem rewinding_checkpoint_replay :
    (∃ content saved d, (rewinding "!set 5 7").machine.snapshot.encode = .ok content ∧
      Snapshot.decode content = .ok saved ∧
      ({ machine := { pc := 9, running := false } } : Debugger).restore saved = .ok d ∧
      (rewinding "!set 5 7").RunsAlike { rewinding "!set 5 7" with debugger := d }) ∧
    ∃ t, (rewinding "!set 5 7").step = (t, none) ∧ t.machine.running = true ∧
      t.machine.memory.get 5 = 7 ∧ t.machine.WaitsFor (Memory.registerCell 0) := by
  have replay := checkpoint_replay (rewinding_reachable "!set 5 7") (by decide)
  obtain ⟨⟨content, saved, encoded, decoded, restores⟩, -, saves⟩ := replay
  constructor
  · let halted : Session :=
      { rewinding "!set 5 7" with debugger := { machine := { pc := 9, running := false } } }
    obtain ⟨d, restored, -, -, alike⟩ := restores halted
    exact ⟨content, saved, d, encoded, decoded, restored,
      alike rfl rfl ⟨rfl, rfl, rfl, rfl, .inl rfl⟩⟩
  · obtain ⟨first, c, r, calls, poke, is_save, saved, is_load, loaded, file, host⟩ :=
      rewinding_stepCalls "!set 5 7" ["5", "7"] 5 7 (by decide +kernel) (by decide +kernel)
        (by decide +kernel)
    obtain ⟨-, machine, written⟩ := saves [first] c [r] calls is_save
    obtain ⟨path, content, s, c_file, read, -, -, rewinds⟩ := written saved
    obtain ⟨goes_on, waits⟩ := rewinds r is_load loaded (file.trans c_file) (host ▸ read)
    obtain ⟨t, step, left, -⟩ := goes_on.step (rewinding "!set 5 7") rfl (by simp [calls])
    have memory : c.before.machine.memory = (rewinding "!set 5 7").machine.memory.set 5 7 := by
      rw [machine]
      simp [Memory.poked, poke]
    refine ⟨t, step, ?_, ?_, ?_⟩
    · rw [left, goes_on.machine]
      rfl
    · rw [left, goes_on.machine]
      show c.before.machine.memory.get 5 = 7
      rw [memory, Memory.get_set_self]
    · rw [left]
      apply waits _ (rewinding_waitsFor _)
      intro a near
      rw [memory]
      apply Memory.get_set_of_ne
      rintro rfl
      revert near
      decide +kernel

/-- When the instruction that waits is overwritten before the state is saved, the load goes on at
its place, but with another instruction. -/
theorem overwritten_rewinding :
    ∃ (c r : Call) (t : Session), (rewinding "!set 0 21").Reachable ∧
      (rewinding "!set 0 21").machine.WaitsFor (Memory.registerCell 0) ∧
      c ∈ (rewinding "!set 0 21").stepCalls ∧ c.command = .save ∧ c.Succeeds ∧
      r ∈ (rewinding "!set 0 21").stepCalls ∧ r.command = .load ∧ r.Succeeds ∧
      r.before.snapshotFile = c.before.snapshotFile ∧ r.before.host = c.after.host ∧
      (rewinding "!set 0 21").step = (t, none) ∧ t.machine.pc = 0 ∧
      ∀ cell, ¬t.machine.WaitsFor cell := by
  have reached := rewinding_reachable "!set 0 21"
  obtain ⟨first, c, r, calls, poke, is_save, saved, is_load, loaded, file, host⟩ :=
    rewinding_stepCalls "!set 0 21" ["0", "21"] 0 21 (by decide +kernel) (by decide +kernel)
      (by decide +kernel)
  have place : (rewinding "!set 0 21").stepCalls = [first] ++ c :: [r] := calls
  have found := reached.sound.before_stepCalls place
  obtain ⟨-, -, -, machine⟩ := waited_stepCalls place
  have shallow : c.before.machine.stack.length < 2 ^ 32 := by
    rw [machine]
    exact Nat.zero_lt_succ _
  obtain ⟨content, encoded, decoded⟩ := found.decode_encode shallow
  obtain ⟨path, content', c_file, encoded', read⟩ := Call.saved is_save saved
  obtain rfl : content' = content := Except.ok.inj (encoded'.symm.trans encoded)
  have goes_on := Call.goesOnAs_of_read found decoded is_load loaded (file.trans c_file)
    (host ▸ read)
  obtain ⟨t, step, left, -⟩ := goes_on.step (rewinding "!set 0 21") rfl (by simp [calls])
  have pc : t.machine.pc = 0 := by
    rw [left, goes_on.machine, machine]
    rfl
  refine ⟨c, r, t, reached, rewinding_waitsFor _, by simp [calls], is_save, saved, by simp [calls],
    is_load, loaded, file, host, step, pc, ?_⟩
  intro cell waits
  obtain ⟨n, at_n, -, named, -⟩ := Machine.waitsFor_iff_units.mp waits
  obtain rfl : n = 0 := by omega
  have unit : t.machine.memory.unitAt 0 = 21 := by
    rw [left, goes_on.machine, machine]
    simp [Machine.resumed, Memory.poked, poke, Memory.unitAt]
  rw [unit] at named
  revert named
  decide

end Session

end WordMachine
