import WordMachine.Debugger.Command

/-!
# Effects of commands

A command that is run does one of four things: it leaves the machine alone, stores one value,
stops the machine, or goes on from the snapshot file. Only the last two give up the instruction
that waits for input.
-/

namespace WordMachine

/-- The parts of a debugger that no command changes. -/
def Debugger.setting (d : Debugger) : Bool × Option Path × Option Path :=
  (d.attached, d.dumpFile, d.snapshotFile)

theorem Debugger.setting_marked (d : Debugger) (preempted : Bool) :
    { d with preempted }.setting = d.setting := rfl

def Debugger.withJournal (d : Debugger) (journal : Journal) : Debugger :=
  { d with host := { d.host with journal } }

/-- A command line that is run, with the debugger it is given to. -/
structure Call where
  command : Command
  line : String
  before : Debugger

namespace Command

/-- The cell and the value that the arguments of `set` name. -/
def target? (argv : List String) : Option (Cell × Word) :=
  match setArguments argv with
  | .ok (address, some value) =>
      if h : address.getD 0 < numCells then some (⟨address.getD 0, h⟩, UInt16.ofNat value) else none
  | _ => none

theorem ignoring_eq (c : Command) (d : Debugger) (argv : List String) :
    ∃ journal, c.ignoring d argv = d.withJournal journal := by
  unfold ignoring
  split
  · exact ⟨d.host.journal, rfl⟩
  · exact ⟨_, rfl⟩

theorem runHalt_eq (d : Debugger) :
    ∃ journal, runHalt d =
      ({ d with machine := { d.machine with running := false }, host := { d.host with journal } },
        { preempts := true }) := by
  unfold runHalt Debugger.halt Debugger.logHalt
  split <;> exact ⟨_, rfl⟩

theorem runDump_eq (d : Debugger) :
    ∃ host, (runDump d).1 = { d with host } ∧
      ∀ outcome, (runDump d).2 = .ok outcome → outcome.preempts = false := by
  unfold runDump
  split
  · exact ⟨d.host, rfl, by simp⟩
  · dsimp only
    split
    · exact ⟨_, rfl, by simp⟩
    · exact ⟨_, rfl, by simp⟩
    · exact ⟨_, rfl, by simp⟩

theorem runSave_eq (d : Debugger) :
    ∃ host, (runSave d).1 = { d with host } ∧
      ∀ outcome, (runSave d).2 = .ok outcome → outcome.preempts = false := by
  unfold runSave
  split
  · exact ⟨d.host, rfl, by simp⟩
  · split
    · exact ⟨_, rfl, by simp⟩
    · exact ⟨_, rfl, by simp⟩
    · exact ⟨_, rfl, by simp⟩

end Command

theorem Debugger.restore_eq_ok {d d' : Debugger} {s : Snapshot} (h : d.restore s = .ok d') :
    ∃ memory journal, Memory.ofValues s.memory = .ok memory ∧
      d' = { d with
        machine := { d.machine with
          memory, pc := s.pc, stack := s.stack.reverse, running := true, fault := none }
        pending := [], host := { d.host with journal } } := by
  unfold Debugger.restore Machine.restored at h
  split at h
  · next memory cells => exact ⟨memory, _, cells, (Except.ok.inj h).symm⟩
  · cases h

theorem Host.files_readSnapshot (h : Host) (path : Path) :
    (h.readSnapshot path).1.files = h.files := by
  unfold readSnapshot
  split
  · rfl
  · rfl
  · split <;> rfl

theorem Host.readSnapshot_congr (h h' : Host) (files : h'.files = h.files) (path : Path) :
    (h'.readSnapshot path).2 = (h.readSnapshot path).2 ∧
      (h'.readSnapshot path).1.files = (h.readSnapshot path).1.files := by
  unfold Host.readSnapshot
  rw [files]
  split
  · exact ⟨rfl, files⟩
  · exact ⟨rfl, files⟩
  · split
    · exact ⟨rfl, files⟩
    · exact ⟨rfl, files⟩

namespace Command

theorem runLoad_cases (d : Debugger) :
    (∃ host, (runLoad d).1 = { d with host } ∧
      ∀ outcome, (runLoad d).2 = .ok outcome → outcome.preempts = false ∧ outcome.status ≠ 0) ∨
    (∃ path s memory host, d.snapshotFile = some path ∧ (d.host.readSnapshot path).2 = .ok s ∧
      Memory.ofValues s.memory = .ok memory ∧
      runLoad d = ({ d with
        machine := { d.machine with
          memory, pc := s.pc, stack := s.stack.reverse, running := true, fault := none }
        pending := [], host }, .ok { preempts := true })) := by
  unfold runLoad
  split
  · exact .inl ⟨d.host, rfl, by simp⟩
  · next path file =>
      split
      · next host s read =>
          unfold resume
          split
          · next d' restored =>
              obtain ⟨memory, journal, cells, rfl⟩ := Debugger.restore_eq_ok restored
              exact .inr ⟨path, s, memory, _, file, by rw [read], cells, rfl⟩
          · exact .inl ⟨_, rfl, by simp⟩
      · exact .inl ⟨_, rfl, by simp⟩
      · exact .inl ⟨_, rfl, by simp⟩

/-- A `set` that is refused changes the host at most; one that is carried out changes a cell. -/
theorem runSet_cases (d : Debugger) (argv : List String) :
    (∃ host, (runSet d argv).1 = { d with host } ∧
      (d.attached = true → target? argv = none) ∧
      ∀ outcome, (runSet d argv).2 = .ok outcome → outcome.preempts = false ∧ outcome.status ≠ 0) ∨
    (∃ cell value host, d.attached = true ∧ target? argv = some (cell, value) ∧
      runSet d argv = ({ d with
        machine := { d.machine with memory := d.machine.memory.set cell value }, host },
        .ok {})) := by
  unfold runSet
  split
  · next e refused => exact .inl ⟨_, rfl, fun _ => by simp [target?, refused], by simp⟩
  · next address value parsed =>
      dsimp only
      split
      · next inside =>
          split
          · next detached =>
              refine .inl ⟨d.host, rfl, ?_, by simp⟩
              intro attached
              simp [attached] at detached
          · next attached =>
              split
              · exact .inl ⟨d.host, rfl, fun _ => by simp [target?, parsed], by simp⟩
              · simp only [Bool.not_eq_true, Bool.not_eq_false'] at attached
                exact .inr ⟨_, _, _, attached, by simp [target?, parsed, inside], rfl⟩
      · next outside =>
          refine .inl ⟨_, rfl, ?_, by simp⟩
          intro _
          cases value <;> simp [target?, parsed, outside]

theorem carryOut_of_detached {c : Command} {d : Debugger} (argv : List String) (other : c ≠ .set)
    (detached : d.attached = false) :
    ∃ host, c.carryOut d argv = ({ d with host }, .error .detached) := by
  obtain ⟨journal, ignored⟩ := c.ignoring_eq d argv
  cases c
  case set => exact absurd rfl other
  all_goals exact ⟨_, by simp only [carryOut, ignored, Debugger.withJournal, detached]; rfl⟩

theorem carryOut_halt {d : Debugger} (argv : List String) (attached : d.attached = true) :
    ∃ host, carryOut .halt d argv =
      ({ d with machine := { d.machine with running := false }, host },
        .ok { preempts := true }) := by
  obtain ⟨journal, ignored⟩ := ignoring_eq .halt d argv
  obtain ⟨journal', halted⟩ := runHalt_eq (d.withJournal journal)
  have eq : carryOut .halt d argv =
      ((runHalt (d.withJournal journal)).1, .ok (runHalt (d.withJournal journal)).2) := by
    simp only [carryOut, ignored, Debugger.withJournal, attached]
    rfl
  exact ⟨_, by rw [eq, halted]; rfl⟩

theorem carryOut_dump {d : Debugger} (argv : List String) (attached : d.attached = true) :
    ∃ journal, carryOut .dump d argv = runDump (d.withJournal journal) := by
  obtain ⟨journal, ignored⟩ := ignoring_eq .dump d argv
  refine ⟨journal, ?_⟩
  simp only [carryOut, ignored, Debugger.withJournal, attached]
  rfl

theorem carryOut_save {d : Debugger} (argv : List String) (attached : d.attached = true) :
    ∃ journal, carryOut .save d argv = runSave (d.withJournal journal) := by
  obtain ⟨journal, ignored⟩ := ignoring_eq .save d argv
  refine ⟨journal, ?_⟩
  simp only [carryOut, ignored, Debugger.withJournal, attached]
  rfl

theorem carryOut_load {d : Debugger} (argv : List String) (attached : d.attached = true) :
    ∃ journal, carryOut .load d argv = runLoad (d.withJournal journal) := by
  obtain ⟨journal, ignored⟩ := ignoring_eq .load d argv
  refine ⟨journal, ?_⟩
  simp only [carryOut, ignored, Debugger.withJournal, attached]
  rfl

/-- What carrying out a command does. Whatever it is, the host may change. -/
inductive Deed (c : Command) (d : Debugger) (argv : List String) : Prop where
  | quiet (host : Host) (debugger : (c.carryOut d argv).1 = { d with host })
      (stays : ∀ outcome, (c.carryOut d argv).2 = .ok outcome → outcome.preempts = false)
      (target : c = .set → d.attached = true → target? argv = none)
      (fails : c ≠ .dump → c ≠ .save →
        ∀ outcome, (c.carryOut d argv).2 = .ok outcome → outcome.status ≠ 0)
  | stored (host : Host) (cell : Cell) (value : Word) (command : c = .set)
      (attached : d.attached = true) (target : target? argv = some (cell, value))
      (ran : c.carryOut d argv =
        ({ d with machine := { d.machine with memory := d.machine.memory.set cell value }, host },
          .ok {}))
  | halted (host : Host) (command : c = .halt)
      (ran : c.carryOut d argv =
        ({ d with machine := { d.machine with running := false }, host },
          .ok { preempts := true }))
  | restored (host : Host) (path : Path) (s : Snapshot) (memory : Memory) (command : c = .load)
      (file : d.snapshotFile = some path) (read : (d.host.readSnapshot path).2 = .ok s)
      (cells : Memory.ofValues s.memory = .ok memory)
      (ran : c.carryOut d argv =
        ({ d with
          machine := { d.machine with
            memory, pc := s.pc, stack := s.stack.reverse, running := true, fault := none }
          pending := [], host },
          .ok { preempts := true }))

private theorem deed_set (d : Debugger) (argv : List String) : Deed .set d argv := by
  rcases runSet_cases d argv with
    ⟨host, debugger, target, fails⟩ | ⟨cell, value, host, attached, target, ran⟩
  · exact .quiet host debugger (fun outcome h => (fails outcome h).1) (fun _ => target)
      fun _ _ outcome h => (fails outcome h).2
  · exact .stored host cell value rfl attached target ran

private theorem deed_load {d : Debugger} (argv : List String) (attached : d.attached = true) :
    Deed .load d argv := by
  obtain ⟨journal, ran⟩ := carryOut_load argv attached
  rcases runLoad_cases (d.withJournal journal) with
    ⟨host, same, fails⟩ | ⟨path, s, memory, host, file, read, cells, loaded⟩
  · rw [← ran] at same fails
    exact .quiet host same (fun outcome h => (fails outcome h).1) (by simp)
      fun _ _ outcome h => (fails outcome h).2
  · have same := Host.readSnapshot_congr (d.withJournal journal).host d.host rfl path
    exact .restored host path s memory rfl file (same.1.trans read) cells (ran.trans loaded)

private theorem deed_attached {c : Command} {d : Debugger} (argv : List String) (other : c ≠ .set)
    (attached : d.attached = true) : Deed c d argv := by
  cases c with
  | set => exact absurd rfl other
  | load => exact deed_load argv attached
  | halt =>
      obtain ⟨host, ran⟩ := carryOut_halt argv attached
      exact .halted host rfl ran
  | dump =>
      obtain ⟨journal, ran⟩ := carryOut_dump argv attached
      obtain ⟨host, debugger, stays⟩ := runDump_eq (d.withJournal journal)
      rw [← ran] at debugger stays
      exact .quiet host debugger stays (by simp) (by simp)
  | save =>
      obtain ⟨journal, ran⟩ := carryOut_save argv attached
      obtain ⟨host, debugger, stays⟩ := runSave_eq (d.withJournal journal)
      rw [← ran] at debugger stays
      exact .quiet host debugger stays (by simp) (by simp)

theorem deed (c : Command) (d : Debugger) (argv : List String) : Deed c d argv := by
  by_cases set : c = .set
  · exact set ▸ deed_set d argv
  · cases attached : d.attached with
    | true => exact deed_attached argv set attached
    | false =>
        obtain ⟨host, ran⟩ := carryOut_of_detached argv set attached
        exact .quiet host (by rw [ran]) (by simp [ran]) (fun same => absurd same set)
          (by simp [ran])

theorem files_runSet (d : Debugger) (argv : List String) :
    (runSet d argv).1.host.files = d.host.files := by
  unfold runSet
  split
  · rfl
  · dsimp only
    split
    · split
      · rfl
      · split <;> rfl
    · rfl

theorem files_runLoad (d : Debugger) : (runLoad d).1.host.files = d.host.files := by
  rcases file : d.snapshotFile with _ | path
  · simp only [runLoad, file]
  · have kept := d.host.files_readSnapshot path
    rcases read : d.host.readSnapshot path with ⟨host, e | s⟩
    · rw [read] at kept
      cases e <;> simp only [runLoad, file, read] <;> exact kept
    · rw [read] at kept
      simp only [runLoad, file, read, resume]
      split
      · next d' restored =>
          obtain ⟨memory, journal, -, rfl⟩ := Debugger.restore_eq_ok restored
          exact kept
      · exact kept

theorem files_carryOut {c : Command} (d : Debugger) (argv : List String) (dump : c ≠ .dump)
    (save : c ≠ .save) : (c.carryOut d argv).1.host.files = d.host.files := by
  by_cases set : c = .set
  · rw [set]
    exact files_runSet d argv
  · cases attached : d.attached with
    | false =>
        obtain ⟨journal, ignored⟩ := c.ignoring_eq d argv
        cases c
        case set => exact absurd rfl set
        all_goals
          simp only [carryOut, ignored, Debugger.withJournal, attached]
          rfl
    | true =>
        cases c with
        | set => exact absurd rfl set
        | dump => exact absurd rfl dump
        | save => exact absurd rfl save
        | halt =>
            obtain ⟨journal, ignored⟩ := ignoring_eq .halt d argv
            obtain ⟨journal', halted⟩ := runHalt_eq (d.withJournal journal)
            simp only [carryOut, ignored, Debugger.withJournal, attached] at halted ⊢
            simp [halted]
        | load =>
            obtain ⟨journal, ran⟩ := carryOut_load argv attached
            rw [ran]
            exact files_runLoad _

theorem run_fst (c : Command) (d : Debugger) (argv : List String) :
    ∃ preempted, (c.run d argv).1 = { (c.carryOut d argv).1 with preempted } := by
  unfold run
  split
  · next ran => exact ⟨_, by rw [ran]⟩
  · next ran => exact ⟨_, by rw [ran]⟩

end Command

namespace Call

/-- The debugger after the command was run. -/
def after (c : Call) : Debugger := c.command.dispatch c.before c.line

/-- The words that follow the name of the command, if the line can be cut into words. -/
def arguments? (c : Call) : Option (List String) :=
  (commandArguments c.line).toOption.map (·.drop 1)

/-- The cell and the value that the command stores, if it does. -/
def poke? (c : Call) : Option (Cell × Word) :=
  if c.command = .set ∧ c.before.attached = true then c.arguments?.bind Command.target? else none

/-- The status that the command ends with, if it is not stopped before. -/
def status? (c : Call) : Option Nat :=
  c.arguments?.bind fun argv => (c.command.run c.before argv).2.toOption.map (·.status)

/-- The command does what it is asked to. -/
def Succeeds (c : Call) : Prop := c.status? = some 0

instance (c : Call) : Decidable c.Succeeds := inferInstanceAs (Decidable (c.status? = some 0))

/-- The four things that a command may do to the debugger, whose host it may always change. -/
inductive Reaction (c : Call) : Prop where
  | quiet (host : Host) (after : c.after = { c.before with host }) (poke : c.poke? = none)
      (command : c.command ≠ .dump → c.command ≠ .save → ¬c.Succeeds)
  | stored (host : Host) (cell : Cell) (value : Word) (poke : c.poke? = some (cell, value))
      (command : c.command = .set) (succeeds : c.Succeeds)
      (after : c.after = { c.before with
        machine := { c.before.machine with memory := c.before.machine.memory.set cell value }
        host })
  | halted (host : Host) (command : c.command = .halt) (succeeds : c.Succeeds)
      (after : c.after = { c.before with
        machine := { c.before.machine with running := false }, preempted := true, host })
  | restored (host : Host) (path : Path) (s : Snapshot) (memory : Memory)
      (file : c.before.snapshotFile = some path)
      (read : (c.before.host.readSnapshot path).2 = .ok s)
      (cells : Memory.ofValues s.memory = .ok memory) (command : c.command = .load)
      (succeeds : c.Succeeds)
      (after : c.after = { c.before with
        machine := { c.before.machine with
          memory, pc := s.pc, stack := s.stack.reverse, running := true, fault := none }
        pending := [], preempted := true, host })

theorem after_of_ok {c : Call} {argv : List String} {d : Debugger} {outcome : Outcome}
    (words : c.arguments? = some argv) (h : c.command.carryOut c.before argv = (d, .ok outcome)) :
    ∃ host, host.files = d.host.files ∧
      c.after = { d with host, preempted := d.preempted || outcome.preempts } := by
  unfold arguments? at words
  cases split : commandArguments c.line with
  | error e => simp [split, Except.toOption] at words
  | ok all =>
      obtain rfl : all.drop 1 = argv := by simpa [split, Except.toOption] using words
      have after : c.after = (({ d with preempted := d.preempted || outcome.preempts } :
          Debugger).log .debug .input s!"{c.command.name} -> {outcome.status}") := by
        simp only [Call.after, Command.dispatch, split, Command.run, h]
      exact ⟨c.after.host, by rw [after]; rfl, by rw [after]; rfl⟩

theorem after_of_error {c : Call} {argv : List String} {d : Debugger} {e : Failure}
    (words : c.arguments? = some argv) (h : c.command.carryOut c.before argv = (d, .error e)) :
    ∃ host, host.files = d.host.files ∧ c.after = { d with host } := by
  unfold arguments? at words
  cases split : commandArguments c.line with
  | error e => simp [split, Except.toOption] at words
  | ok all =>
      obtain rfl : all.drop 1 = argv := by simpa [split, Except.toOption] using words
      have after : c.after = (d.log .error .input "command failed").reportError
          (s!"command '{c.command.name}' failed: " ++ e.message) := by
        simp only [Call.after, Command.dispatch, split, Command.run, h]
      exact ⟨c.after.host, by rw [after]; rfl, by rw [after]; rfl⟩

theorem succeeds_iff {c : Call} {argv : List String} (words : c.arguments? = some argv) :
    c.Succeeds ↔ ∃ outcome, (c.command.carryOut c.before argv).2 = .ok outcome ∧
      outcome.status = 0 := by
  have same : (c.command.run c.before argv).2 = (c.command.carryOut c.before argv).2 := by
    unfold Command.run
    split <;> simp [*]
  simp only [Succeeds, status?, words, Option.bind_some, same]
  cases (c.command.carryOut c.before argv).2 <;> simp [Except.toOption]

/-- A command that succeeds was run to its end, and but for `set` on an attached machine. -/
theorem ran_of_succeeds {c : Call} (h : c.Succeeds) (other : c.command ≠ .set) :
    ∃ argv outcome, c.arguments? = some argv ∧ c.before.attached = true ∧
      (c.command.carryOut c.before argv).2 = .ok outcome ∧ outcome.status = 0 := by
  cases words : c.arguments? with
  | none => simp [Succeeds, status?, words] at h
  | some argv =>
      obtain ⟨outcome, ran, zero⟩ := (succeeds_iff words).mp h
      cases attached : c.before.attached with
      | true => exact ⟨argv, outcome, rfl, rfl, ran, zero⟩
      | false =>
          obtain ⟨host, detached⟩ := Command.carryOut_of_detached argv other attached
          rw [detached] at ran
          cases ran

private theorem reaction_unread {c : Call} (words : c.arguments? = none) : c.Reaction := by
  have after : c.after = { c.before with host := c.after.host } := by
    unfold arguments? at words
    cases split : commandArguments c.line with
    | ok all => simp [split, Except.toOption] at words
    | error e =>
        simp only [Call.after, Command.dispatch, split]
        rfl
  refine .quiet _ after (by simp [poke?, words]) ?_
  simp [Succeeds, status?, words]

private theorem reaction_quiet {c : Call} {argv : List String} {host : Host}
    (words : c.arguments? = some argv)
    (debugger : (c.command.carryOut c.before argv).1 = { c.before with host })
    (stays : ∀ outcome, (c.command.carryOut c.before argv).2 = .ok outcome →
      outcome.preempts = false)
    (target : c.command = .set → c.before.attached = true → Command.target? argv = none)
    (fails : c.command ≠ .dump → c.command ≠ .save →
      ∀ outcome, (c.command.carryOut c.before argv).2 = .ok outcome → outcome.status ≠ 0) :
    c.Reaction := by
  have poke : c.poke? = none := by
    unfold poke?
    split
    · next set => rw [words, Option.bind_some, target set.1 set.2]
    · rfl
  have command : c.command ≠ .dump → c.command ≠ .save → ¬c.Succeeds := by
    intro dump save
    rw [succeeds_iff words]
    rintro ⟨outcome, ran, zero⟩
    exact fails dump save outcome ran zero
  rcases ran : c.command.carryOut c.before argv with ⟨d, e | outcome⟩
  · obtain ⟨host', -, after⟩ := after_of_error words ran
    rw [ran] at debugger
    obtain rfl : d = { c.before with host } := debugger
    exact .quiet host' after poke command
  · obtain ⟨host', -, after⟩ := after_of_ok words ran
    rw [ran] at debugger stays
    obtain rfl : d = { c.before with host } := debugger
    rw [stays outcome rfl, Bool.or_false] at after
    exact .quiet host' after poke command

theorem reaction (c : Call) : c.Reaction := by
  rcases words : c.arguments? with _ | argv
  · exact reaction_unread words
  · have succeeds {d : Debugger} {outcome : Outcome} (zero : outcome.status = 0)
        (ran : c.command.carryOut c.before argv = (d, .ok outcome)) : c.Succeeds :=
      (succeeds_iff words).mpr ⟨outcome, by rw [ran], zero⟩
    rcases c.command.deed c.before argv with
      ⟨host, debugger, stays, target, fails⟩
      | ⟨host, cell, value, command, attached, target, ran⟩ | ⟨host, command, ran⟩
      | ⟨host, path, s, memory, command, file, read, cells, ran⟩
    · exact reaction_quiet words debugger stays target fails
    · obtain ⟨host', -, after⟩ := after_of_ok words ran
      rw [Bool.or_false] at after
      exact .stored host' cell value (by simp [poke?, command, attached, words, target]) command
        (succeeds rfl ran) after
    · obtain ⟨host', -, after⟩ := after_of_ok words ran
      rw [Bool.or_true] at after
      exact .halted host' command (succeeds rfl ran) after
    · obtain ⟨host', -, after⟩ := after_of_ok words ran
      rw [Bool.or_true] at after
      exact .restored host' path s memory file read cells command (succeeds rfl ran) after

theorem setting_after (c : Call) : c.after.setting = c.before.setting := by
  rcases c.reaction with
    ⟨host, after, -, -⟩ | ⟨host, cell, value, -, -, -, after⟩ | ⟨host, -, -, after⟩
    | ⟨host, path, s, memory, -, -, -, -, -, after⟩
  all_goals
    rw [after]
    rfl

/-- Only `dump` and `save` write files. -/
theorem files_after {c : Call} (dump : c.command ≠ .dump) (save : c.command ≠ .save) :
    c.after.host.files = c.before.host.files := by
  cases words : c.arguments? with
  | none =>
      unfold arguments? at words
      cases split : commandArguments c.line with
      | ok all => simp [split, Except.toOption] at words
      | error e =>
          simp only [Call.after, Command.dispatch, split]
          rfl
  | some argv =>
      have kept := Command.files_carryOut c.before argv dump save
      rcases ran : c.command.carryOut c.before argv with ⟨d, e | outcome⟩
      · obtain ⟨host, host_files, after⟩ := after_of_error words ran
        rw [ran] at kept
        rw [after]
        exact host_files.trans kept
      · obtain ⟨host, host_files, after⟩ := after_of_ok words ran
        rw [ran] at kept
        rw [after]
        exact host_files.trans kept

/-- No command begins a line for the guest. -/
theorem pending_after {c : Call} (waiting : c.before.pending = []) : c.after.pending = [] := by
  rcases c.reaction with
    ⟨host, after, -, -⟩ | ⟨host, cell, value, -, -, -, after⟩ | ⟨host, -, -, after⟩
    | ⟨host, path, s, memory, -, -, -, -, -, after⟩
  · rw [after, waiting]
  · rw [after, waiting]
  · rw [after, waiting]
  · rw [after]

/-- The commands that preempt are those that stop the machine or replace its state. -/
theorem preempted_after_iff {c : Call} (fresh : c.before.preempted = false) :
    c.after.preempted = true ↔ (c.command = .halt ∨ c.command = .load) ∧ c.Succeeds := by
  rcases c.reaction with
    ⟨host, after, -, fails⟩ | ⟨host, cell, value, -, command, -, after⟩
    | ⟨host, command, succeeds, after⟩ | ⟨host, path, s, memory, -, -, -, command, succeeds, after⟩
  · simp only [after, fresh, Bool.false_eq_true, false_iff, not_and]
    rintro (halt | load)
    · exact fails (by simp [halt]) (by simp [halt])
    · exact fails (by simp [load]) (by simp [load])
  · simp [after, fresh, command]
  · simp [after, command, succeeds]
  · simp [after, command, succeeds]

/-- A command of another kind than these lets the guest go on waiting. -/
theorem stays_of_other {c : Call} (fresh : c.before.preempted = false) (halt : c.command ≠ .halt)
    (load : c.command ≠ .load) : c.after.preempted = false := by
  cases preempts : c.after.preempted with
  | false => rfl
  | true =>
      obtain ⟨kind, -⟩ := (preempted_after_iff fresh).mp preempts
      rcases kind with is_halt | is_load
      · exact absurd is_halt halt
      · exact absurd is_load load

variable {c c' : Call}

theorem arguments?_congr (line : c'.line = c.line) : c'.arguments? = c.arguments? := by
  unfold arguments?
  rw [line]

theorem succeeds_set_iff (set : c.command = .set) : c.Succeeds ↔ c.poke?.isSome = true := by
  rcases c.reaction with
    ⟨host, -, poke, fails⟩ | ⟨host, cell, value, poke, -, succeeds, -⟩ | ⟨host, halt, -, -⟩
    | ⟨host, path, s, memory, -, -, -, load, -, -⟩
  · simp [poke, fails (by simp [set]) (by simp [set])]
  · simp [poke, succeeds]
  · rw [set] at halt
    cases halt
  · rw [set] at load
    cases load

theorem succeeds_halt_iff (halt : c.command = .halt) :
    c.Succeeds ↔ c.before.attached = true ∧ c.arguments?.isSome = true := by
  constructor
  · intro succeeds
    obtain ⟨argv, outcome, words, attached, -, -⟩ := ran_of_succeeds succeeds (by simp [halt])
    exact ⟨attached, by rw [words]; rfl⟩
  · rintro ⟨attached, words⟩
    obtain ⟨argv, words⟩ := Option.isSome_iff_exists.mp words
    obtain ⟨host, ran⟩ := Command.carryOut_halt argv attached
    rw [succeeds_iff words, halt, ran]
    exact ⟨_, rfl, rfl⟩

/-- What `set` stores depends on its line and on the attachment only. -/
theorem poke?_congr (command : c'.command = c.command) (line : c'.line = c.line)
    (attached : c'.before.attached = c.before.attached) : c'.poke? = c.poke? := by
  unfold poke?
  rw [command, attached, arguments?_congr line]

/-- A command that fails, or that only writes a file, changes the host at most. -/
theorem quiet_after (quiet : c.command = .dump ∨ c.command = .save ∨ ¬c.Succeeds) :
    ∃ host, c.after = { c.before with host } := by
  rcases c.reaction with
    ⟨host, after, -, -⟩ | ⟨host, cell, value, -, command, succeeds, -⟩
    | ⟨host, command, succeeds, -⟩ | ⟨host, path, s, memory, -, -, -, command, succeeds, -⟩
  · exact ⟨host, after⟩
  all_goals simp [command, succeeds] at quiet

theorem stored_after {cell : Cell} {value : Word} (poke : c.poke? = some (cell, value)) :
    ∃ host, c.after = { c.before with
      machine := { c.before.machine with memory := c.before.machine.memory.set cell value }
      host } := by
  have set : c.command = .set := by
    unfold poke? at poke
    split at poke
    · next asked => exact asked.1
    · cases poke
  rcases c.reaction with
    ⟨-, -, quiet, -⟩ | ⟨host, cell', value', stored, -, -, after⟩ | ⟨-, halt, -, -⟩
    | ⟨-, -, -, -, -, -, -, load, -, -⟩
  · rw [quiet] at poke
    cases poke
  · obtain ⟨rfl, rfl⟩ := Prod.mk.injEq .. ▸ Option.some.inj (stored.symm.trans poke)
    exact ⟨host, after⟩
  · rw [set] at halt
    cases halt
  · rw [set] at load
    cases load

theorem halted_after (halt : c.command = .halt) (succeeds : c.Succeeds) :
    ∃ host, c.after = { c.before with
      machine := { c.before.machine with running := false }, preempted := true, host } := by
  rcases c.reaction with
    ⟨-, -, -, fails⟩ | ⟨-, -, -, -, set, -, -⟩ | ⟨host, -, -, after⟩
    | ⟨-, -, -, -, -, -, -, load, -, -⟩
  · exact absurd succeeds (fails (by simp [halt]) (by simp [halt]))
  · rw [halt] at set
    cases set
  · exact ⟨host, after⟩
  · rw [halt] at load
    cases load

end Call

end WordMachine
