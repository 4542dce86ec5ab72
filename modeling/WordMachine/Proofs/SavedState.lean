import WordMachine.Proofs.FileReplacement
import WordMachine.Proofs.Reachability
import WordMachine.Proofs.SnapshotFormat

/-!
# Saved states

A sound machine loses nothing when it is saved: its snapshot holds its numbers as they are, the
bytes hold the snapshot, the file holds the bytes, and a machine that goes on from any of them has
the program counter, the stack and the memory of the one that was saved. Every machine that a new
one comes to is sound.
-/

namespace WordMachine

/-- The machine running without a fault, with another count of cycles. -/
def Machine.resumed (m : Machine) (cycles : Nat) : Machine :=
  { m with cycles, running := true, fault := none }

theorem Memory.ofValues_toList (m : Memory) :
    ofValues (m.toList.map fun w => (w.toNat : Int)) = .ok m := by
  obtain ⟨⟨cells, size⟩⟩ := m
  unfold ofValues
  rw [dif_pos (by simp)]
  simp only [Word.map_ofInt_toNat, toList, Vector.toList, Array.toArray_toList]

theorem map_mod_of_fitsWord {vs : List Int} (fits : ∀ v ∈ vs, FitsWord v) :
    vs.map (· % 65536) = vs := by
  have same : vs.map (· % 65536) = vs.map id :=
    List.map_congr_left fun v mem => (fits v mem).mod_eq
  rw [same, List.map_id]

namespace Debugger

/-- The snapshot of a sound machine holds its numbers as they are. -/
theorem Sound.snapshot_eq {d : Debugger} (h : d.Sound) :
    d.machine.snapshot =
      { pc := d.machine.pc, stack := d.machine.stack.reverse
        memory := d.machine.memory.toList.map fun w => (w.toNat : Int) } := by
  have stack : d.machine.stack.reverse.map (· % 65536) = d.machine.stack.reverse :=
    map_mod_of_fitsWord fun v mem => h.stack v (List.mem_reverse.mp mem)
  have memory : (d.machine.memory.toList.map fun w => (w.toNat : Int)).map (· % 65536) =
      d.machine.memory.toList.map fun w => (w.toNat : Int) := by
    apply map_mod_of_fitsWord
    intro v mem
    obtain ⟨w, -, rfl⟩ := List.mem_map.mp mem
    exact fitsWord_toNat w
  rw [Machine.snapshot, Snapshot.capture, h.pc.mod_eq, stack, memory]

theorem Sound.ofValues_snapshot {d : Debugger} (h : d.Sound) :
    Memory.ofValues d.machine.snapshot.memory = .ok d.machine.memory := by
  rw [h.snapshot_eq]
  exact Memory.ofValues_toList _

theorem Sound.restore_snapshot {v : Debugger} (h : v.Sound) (w : Debugger) :
    ∃ journal, w.restore v.machine.snapshot =
      .ok { w with
        machine := v.machine.resumed w.machine.cycles, pending := []
        host := { w.host with journal } } := by
  rw [h.snapshot_eq]
  unfold restore Machine.restored
  simp only [Memory.ofValues_toList, List.reverse_reverse]
  exact ⟨_, rfl⟩

/-- The bytes of a sound machine are read back as its snapshot. -/
theorem Sound.decode_encode {d : Debugger} (h : d.Sound)
    (shallow : d.machine.stack.length < 2 ^ 32) :
    ∃ content, d.machine.snapshot.encode = .ok content ∧
      Snapshot.decode content = .ok d.machine.snapshot := by
  let saved : Snapshot :=
    { pc := d.machine.pc, stack := d.machine.stack.reverse
      memory := d.machine.memory.toList.map fun w => (w.toNat : Int) }
  obtain ⟨content, encoded, decoded⟩ := Snapshot.decode_encode (s := saved)
    (by simp [saved]) (by simpa [saved] using shallow)
  exact ⟨content, by rw [h.snapshot_eq]; exact encoded, decoded⟩

end Debugger

namespace Host

variable {h : Host} {path : Path} {s : Snapshot} {content : Bytes}

theorem writeSnapshot_eq_ok_iff : (h.writeSnapshot path s).2 = .ok () ↔
    ∃ content, s.encode = .ok content ∧ (h.files.replaceFile path content).2 = .ok () := by
  unfold writeSnapshot
  cases encoded : s.encode with
  | error e => simp
  | ok content =>
      rcases replaced : h.files.replaceFile path content with ⟨files, e | done⟩
      · cases e <;> simp [Host.replace, replaced]
      · simp [Host.replace, replaced]

theorem files_writeSnapshot (encoded : s.encode = .ok content) :
    (h.writeSnapshot path s).1.files = (h.files.replaceFile path content).1 := by
  unfold writeSnapshot
  rcases replaced : h.files.replaceFile path content with ⟨files, e | done⟩
  · cases e <;> simp [encoded, Host.replace, replaced]
  · simp [encoded, Host.replace, replaced]

end Host

namespace Command

variable {d : Debugger} {path : Path} {content : Bytes}

theorem runSave_succeeds_iff : (∃ outcome, (runSave d).2 = .ok outcome ∧ outcome.status = 0) ↔
    ∃ path content, d.snapshotFile = some path ∧ d.machine.snapshot.encode = .ok content ∧
      (d.host.files.replaceFile path content).2 = .ok () := by
  unfold runSave
  cases d.snapshotFile with
  | none => simp
  | some path =>
      have written : (d.host.writeSnapshot path d.machine.snapshot).2 = .ok () ↔ _ :=
        Host.writeSnapshot_eq_ok_iff
      simp only [Option.some.injEq, exists_and_left, exists_eq_left']
      rw [← written]
      rcases d.host.writeSnapshot path d.machine.snapshot with ⟨host, e | done⟩
      · cases e <;> simp
      · simp

theorem files_runSave (file : d.snapshotFile = some path)
    (encoded : d.machine.snapshot.encode = .ok content) :
    (runSave d).1.host.files = (d.host.files.replaceFile path content).1 := by
  rw [← Host.files_writeSnapshot encoded]
  unfold runSave
  simp only [file]
  rcases d.host.writeSnapshot path d.machine.snapshot with ⟨host, e | done⟩
  · cases e <;> rfl
  · rfl

theorem runLoad_succeeds {s : Snapshot} {memory : Memory} (file : d.snapshotFile = some path)
    (read : d.host.files.readFile path = .ok content) (decoded : Snapshot.decode content = .ok s)
    (cells : Memory.ofValues s.memory = .ok memory) : (runLoad d).2 = .ok { preempts := true } := by
  have read_s : (d.host.readSnapshot path).2 = .ok s :=
    Host.readSnapshot_eq_ok_iff.mpr ⟨content, read, decoded⟩
  unfold runLoad
  simp only [file]
  rcases outcome : d.host.readSnapshot path with ⟨host, found⟩
  rw [outcome] at read_s
  obtain rfl : found = .ok s := read_s
  simp only [resume, Debugger.restore, Machine.restored, cells, Except.map]

end Command

namespace Call

private theorem carryOut_of_save {c : Call} (argv : List String) (command : c.command = .save)
    (attached : c.before.attached = true) : ∃ journal,
      c.command.carryOut c.before argv = Command.runSave (c.before.withJournal journal) := by
  rw [command]
  exact Command.carryOut_save argv attached

/-- A `save` that succeeds puts the bytes of the machine into the snapshot file. -/
theorem saved {c : Call} (command : c.command = .save) (h : c.Succeeds) :
    ∃ path content, c.before.snapshotFile = some path ∧
      c.before.machine.snapshot.encode = .ok content ∧
      c.after.host.files.readFile path = .ok content := by
  obtain ⟨argv, outcome, words, attached, ran, zero⟩ := ran_of_succeeds h (by simp [command])
  obtain ⟨journal, same⟩ := carryOut_of_save argv command attached
  rw [same] at ran
  obtain ⟨path, content, file, encoded, replaced⟩ :=
    Command.runSave_succeeds_iff.mp ⟨outcome, ran, zero⟩
  obtain ⟨host, host_files, after⟩ := after_of_ok words (same.trans (Prod.ext rfl ran))
  refine ⟨path, content, file, encoded, ?_⟩
  rw [after]
  show host.files.readFile path = .ok content
  rw [host_files, Command.files_runSave file encoded]
  exact FileTree.readFile_of_replaceFile (Prod.ext rfl replaced)

/-- A `save` succeeds when the bytes of the machine can replace the snapshot file. -/
theorem succeeds_of_replaced {c : Call} {argv : List String} {path : Path} {content : Bytes}
    (command : c.command = .save) (words : c.arguments? = some argv)
    (attached : c.before.attached = true) (file : c.before.snapshotFile = some path)
    (encoded : c.before.machine.snapshot.encode = .ok content)
    (replaced : (c.before.host.files.replaceFile path content).2 = .ok ()) : c.Succeeds := by
  obtain ⟨journal, same⟩ := carryOut_of_save argv command attached
  rw [succeeds_iff words, same]
  exact Command.runSave_succeeds_iff.mpr ⟨path, content, file, encoded, replaced⟩

theorem succeeds_of_read {c : Call} {argv : List String} {path : Path} {content : Bytes}
    {s : Snapshot} {memory : Memory} (command : c.command = .load)
    (words : c.arguments? = some argv) (attached : c.before.attached = true)
    (file : c.before.snapshotFile = some path)
    (read : c.before.host.files.readFile path = .ok content)
    (decoded : Snapshot.decode content = .ok s) (cells : Memory.ofValues s.memory = .ok memory) :
    c.Succeeds := by
  obtain ⟨journal, same⟩ := Command.carryOut_load argv attached
  rw [← command] at same
  have ran := Command.runLoad_succeeds (d := c.before.withJournal journal) file read decoded cells
  exact (succeeds_iff words).mpr ⟨_, (congrArg Prod.snd same).trans ran, rfl⟩

/-- A `load` that succeeds makes the machine go on from the snapshot file. -/
theorem loaded {c : Call} {path : Path} {content : Bytes} {s : Snapshot}
    (command : c.command = .load) (h : c.Succeeds) (file : c.before.snapshotFile = some path)
    (read : c.before.host.files.readFile path = .ok content)
    (decoded : Snapshot.decode content = .ok s) :
    ∃ memory host, Memory.ofValues s.memory = .ok memory ∧
      c.after = { c.before with
        machine := { c.before.machine with
          memory, pc := s.pc, stack := s.stack.reverse, running := true, fault := none }
        pending := [], preempted := true, host } := by
  rcases c.reaction with
    ⟨host, after, -, fails⟩ | ⟨host, cell, value, -, set, -, after⟩ | ⟨host, halt, -, after⟩
    | ⟨host, path', s', memory, file', read', cells, -, -, after⟩
  · exact absurd h (fails (by simp [command]) (by simp [command]))
  · rw [command] at set
    cases set
  · rw [command] at halt
    cases halt
  · obtain rfl : path' = path := Option.some.inj (file'.symm.trans file)
    obtain ⟨content', read', decoded'⟩ := Host.readSnapshot_eq_ok_iff.mp read'
    obtain rfl : content' = content := Except.ok.inj (read'.symm.trans read)
    obtain rfl : s' = s := Except.ok.inj (decoded'.symm.trans decoded)
    exact ⟨memory, host, cells, after⟩

/-- A `load` right after a `save` that can be written: both succeed. -/
theorem succeeds_of_load_after_save {c r : Call} {argv argv' : List String} {path : Path}
    (sound : c.before.Sound) (shallow : c.before.machine.stack.length < 2 ^ 32)
    (saves : c.command = .save) (loads : r.command = .load) (words : c.arguments? = some argv)
    (words' : r.arguments? = some argv') (attached : c.before.attached = true)
    (file : c.before.snapshotFile = some path)
    (writable : ∀ content, (c.before.host.files.replaceFile path content).2 = .ok ())
    (setting : r.before.setting = c.before.setting) (host : r.before.host = c.after.host) :
    c.Succeeds ∧ r.Succeeds := by
  obtain ⟨content, encoded, decoded⟩ := sound.decode_encode shallow
  have saved := succeeds_of_replaced saves words attached file encoded (writable content)
  obtain ⟨path', content', file', encoded', read⟩ := Call.saved saves saved
  obtain rfl : path = path' := Option.some.inj (file.symm.trans file')
  obtain rfl : content' = content := Except.ok.inj (encoded'.symm.trans encoded)
  obtain ⟨attached', -, file_r⟩ :
      r.before.attached = c.before.attached ∧ r.before.dumpFile = c.before.dumpFile ∧
        r.before.snapshotFile = c.before.snapshotFile := by
    simpa [Debugger.setting] using setting
  refine ⟨saved, succeeds_of_read loads words' (attached'.trans attached) (file_r.trans file)
    (host ▸ read) decoded sound.ofValues_snapshot⟩

end Call

namespace Session

variable {s : Session}

theorem Sound.snapshot_eq (h : s.Sound) : s.machine.snapshot =
    { pc := s.machine.pc, stack := s.machine.stack.reverse
      memory := s.machine.memory.toList.map fun w => (w.toNat : Int) } :=
  Debugger.Sound.snapshot_eq h

theorem Sound.status_ne_running (h : s.Sound) (faulted : s.machine.fault.isSome = true) :
    s.machine.status ≠ .running := by
  have stopped : s.machine.running = false := h.stopped faulted
  simp [Machine.status, stopped, faulted]

/-- Whatever a new machine comes to, its numbers fit into cells, the line that the guest has begun
ends in a line feed, a fault is never recorded of a running machine, and a snapshot loses nothing.
A run is a sequence of steps: see `Reachable.run`. -/
theorem reachable_in_range (h : Reachable s) :
    s.machine.memory.toList.length = 32776 ∧
      (∀ w ∈ s.machine.memory.toList, w.toNat ≤ 65535) ∧
      0 ≤ s.machine.pc ∧ s.machine.pc ≤ 65535 ∧
      (∀ v ∈ s.machine.stack, 0 ≤ v ∧ v ≤ 65535) ∧
      (s.debugger.pending ≠ [] → s.debugger.pending.getLast? = some '\n' ∧
        ∀ c ∈ s.debugger.pending, c.toNat ≤ 0xFFFF) ∧
      (s.machine.fault.isSome = true →
        s.machine.running = false ∧ s.machine.status ≠ .running) ∧
      s.machine.snapshot =
        { pc := s.machine.pc, stack := s.machine.stack.reverse
          memory := s.machine.memory.toList.map fun w => (w.toNat : Int) } := by
  have sound : s.Sound := h.sound
  have pc : FitsWord s.machine.pc := sound.pc
  have stack : ∀ v ∈ s.machine.stack, FitsWord v := sound.stack
  refine ⟨s.machine.memory.length_toList, ?_, pc.1, Int.le_of_lt_add_one pc.2, ?_, ?_, ?_,
    sound.snapshot_eq⟩
  · intro w _
    exact Nat.le_of_lt_succ w.toNat_lt
  · intro v mem
    exact ⟨(stack v mem).1, Int.le_of_lt_add_one (stack v mem).2⟩
  · intro begun
    exact ⟨sound.ended begun, sound.fits⟩
  · intro faulted
    exact ⟨sound.stopped faulted, sound.status_ne_running faulted⟩

/-- A new session whose guest reads a character into a cell and calls a routine, which a command
spoils while the guest waits. -/
def calling : Session where
  debugger := { machine := { memory := Memory.blank.fill 0 [20, 9, 17, 12] } }
  feed := .ofLines ["!set 12 65535", "hé"]

theorem calling_reachable_in_range :
    (calling.run 3).1.machine.pc = 12 ∧ (calling.run 3).1.machine.stack = [4] ∧
      (calling.run 3).1.debugger.pending = ['é', '\n'] ∧
      (calling.run 3).1.machine.running = false ∧ (calling.run 3).1.machine.status ≠ .running ∧
      (calling.run 3).1.machine.snapshot.stack = [4] := by
  have blank : Reachable {} := .fresh rfl rfl
  have loaded := blank.loaded [20, 9, 17, 12] rfl
  have start : Reachable calling := loaded.elsewhere rfl rfl
  have reached : Reachable (calling.run 3).1 := start.run 3
  obtain ⟨pc, stack, pending, faulted⟩ : (calling.run 3).1.machine.pc = 12 ∧
      (calling.run 3).1.machine.stack = [4] ∧
      (calling.run 3).1.debugger.pending = ['é', '\n'] ∧
      (calling.run 3).1.machine.fault.isSome = true := by decide +kernel
  obtain ⟨-, -, -, -, -, -, stopped, saved⟩ := reachable_in_range reached
  exact ⟨pc, stack, pending, (stopped faulted).1, (stopped faulted).2, by rw [saved, stack]; rfl⟩

end Session

end WordMachine
