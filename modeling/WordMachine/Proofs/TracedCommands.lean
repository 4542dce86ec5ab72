import WordMachine.Proofs.FileAside
import WordMachine.Proofs.Retelling

/-!
# Commands beside a trace

Two hosts of which the second one is also traced: trace records may stand among the entries of its
journal, and one of its files may hold trace lines. Commands and reads that use another file do the
same on both.
-/

namespace WordMachine

/-- What is recorded of a trace line in the log. -/
def traceRecord (line : String) : Entry := .record ⟨.debug, .machine, line⟩

/-- Of two journals with a common start the second one has, in their order, the records of trace
lines among its entries, and else what the first one has. -/
inductive Journal.Woven : List String → Journal → Journal → Prop where
  | start (j : Journal) : Woven [] j j
  | entry {lines : List String} {j k : Journal} (h : Woven lines j k) (e : Entry) :
      Woven lines (j.push e) (k.push e)
  | line {lines : List String} {j k : Journal} (h : Woven lines j k) (text : String) :
      Woven (lines ++ [text]) j (k.push (traceRecord text))

/-- Without trace lines the journals are the same. -/
theorem Journal.Woven.eq {lines : List String} {j k : Journal} (h : Woven lines j k)
    (none : lines = []) : k = j := by
  induction h with
  | start j => rfl
  | entry h e ih => rw [ih none]
  | line h text => simp at none

/-- A trace tells the operator nothing. -/
theorem Journal.Woven.reports {lines : List String} {j k : Journal} (h : Woven lines j k) :
    k.reports = j.reports := by
  induction h with
  | start j => rfl
  | entry h e ih =>
      simp only [Journal.reports, Array.foldl_push] at ih ⊢
      rw [ih]
  | line h text ih =>
      simp only [Journal.reports, traceRecord, Array.foldl_push] at ih ⊢
      exact ih

/-- A path by which files are replaced, and the one beside it, that do not lead to the file that is
set aside. -/
def Path.Spares (p : Path) (a : Option Aside) : Prop :=
  p.Avoids a ∧ ∀ beside, p.appendToName ".tmp" = some beside → beside.Avoids a

theorem Path.spares_none (p : Path) : p.Spares none := by
  constructor <;> simp [Path.Avoids]

namespace Host

/-- The second host is the first one with trace records in its journal, and trace lines in the file
that is set aside. -/
structure Beside (a : Option Aside) (content : Bytes) (lines : List String) (h k : Host) :
    Prop where
  files : h.files.SameBut a content k.files
  journal : Journal.Woven lines h.journal k.journal

namespace Beside

variable {a : Option Aside} {content : Bytes} {lines : List String} {h k : Host}

theorem log (b : Beside a content lines h k) (level : Level) (channel : Channel)
    (message : String) :
    Beside a content lines (h.log level channel message) (k.log level channel message) :=
  ⟨b.files, b.journal.entry _⟩

theorem report (b : Beside a content lines h k) (text : String) :
    Beside a content lines (h.report text) (k.report text) :=
  ⟨b.files, b.journal.entry _⟩

theorem replace {path : Path} (b : Beside a content lines h k) (spares : path.Spares a)
    (new : Bytes) :
    Beside a content lines (h.replace path new).1 (k.replace path new).1 ∧
      (k.replace path new).2 = (h.replace path new).2 := by
  obtain ⟨files, outcome⟩ := b.files.replaceFile spares.1 spares.2 new
  refine ⟨⟨files, b.journal⟩, ?_⟩
  unfold Host.replace
  dsimp only
  rw [outcome]

/-- A file is replaced and the log told of it, or neither. -/
theorem replace_log {path : Path} (b : Beside a content lines h k) (spares : path.Spares a)
    (new : Bytes) (message : String) :
    let written (h : Host) : Host × Except Failure Unit :=
      match h.replace path new with
      | (h, .error e) => (h, .error e)
      | (h, .ok ()) => (h.log .info .snapshot message, .ok ())
    Beside a content lines (written h).1 (written k).1 ∧ (written k).2 = (written h).2 := by
  have replaced := b.replace spares new
  revert replaced
  dsimp only
  rcases h.replace path new with ⟨h', done⟩
  rcases k.replace path new with ⟨k', done'⟩
  rintro ⟨after, same⟩
  obtain rfl : done' = done := same
  cases done' with
  | error e => exact ⟨after, rfl⟩
  | ok _ => exact ⟨after.log _ _ _, rfl⟩

theorem writeSnapshot {path : Path} (b : Beside a content lines h k) (spares : path.Spares a)
    (s : Snapshot) :
    Beside a content lines (h.writeSnapshot path s).1 (k.writeSnapshot path s).1 ∧
      (k.writeSnapshot path s).2 = (h.writeSnapshot path s).2 := by
  unfold Host.writeSnapshot
  cases s.encode with
  | error e => exact ⟨b, rfl⟩
  | ok new => exact b.replace_log spares new _

theorem writeDump {path : Path} (b : Beside a content lines h k) (spares : path.Spares a)
    (cells : List Int) :
    Beside a content lines (h.writeDump path cells).1 (k.writeDump path cells).1 ∧
      (k.writeDump path cells).2 = (h.writeDump path cells).2 := by
  unfold Host.writeDump
  cases Snapshot.encodeCells cells with
  | error e => exact ⟨b, rfl⟩
  | ok new => exact b.replace_log spares new _

theorem readSnapshot {path : Path} (b : Beside a content lines h k) (avoids : path.Avoids a) :
    Beside a content lines (h.readSnapshot path).1 (k.readSnapshot path).1 ∧
      (k.readSnapshot path).2 = (h.readSnapshot path).2 := by
  unfold Host.readSnapshot
  rw [b.files.readFile avoids]
  rcases h.files.readFile path with e | bytes
  · cases e <;> exact ⟨b, rfl⟩
  · dsimp only
    cases Snapshot.decode bytes with
    | error e => exact ⟨b, rfl⟩
    | ok s => exact ⟨b.log _ _ _, rfl⟩

end Beside

end Host

namespace Debugger

def withHost (d : Debugger) (host : Host) : Debugger := { d with host }

section

variable (d : Debugger) (host : Host)

@[simp] theorem withHost_host : (d.withHost host).host = host := rfl

@[simp] theorem withHost_machine : (d.withHost host).machine = d.machine := rfl

@[simp] theorem withHost_attached : (d.withHost host).attached = d.attached := rfl

@[simp] theorem withHost_dumpFile : (d.withHost host).dumpFile = d.dumpFile := rfl

@[simp] theorem withHost_snapshotFile : (d.withHost host).snapshotFile = d.snapshotFile := rfl

end

/-- The second debugger is the first one with a host beside its own. -/
def Beside (a : Option Aside) (content : Bytes) (lines : List String) (d e : Debugger) : Prop :=
  ∃ host, e = d.withHost host ∧ d.host.Beside a content lines host

/-- Dumps and snapshots do not go to the file that is set aside. -/
structure Spares (a : Option Aside) (d : Debugger) : Prop where
  dumpFile : ∀ path ∈ d.dumpFile, path.Spares a
  snapshotFile : ∀ path ∈ d.snapshotFile, path.Spares a

theorem spares_none (d : Debugger) : d.Spares none :=
  ⟨fun path _ => path.spares_none, fun path _ => path.spares_none⟩

theorem Spares.of_setting {a : Option Aside} {d e : Debugger} (spares : d.Spares a)
    (setting : e.setting = d.setting) : e.Spares a := by
  have dumpFile : e.dumpFile = d.dumpFile := congrArg (·.2.1) setting
  have snapshotFile : e.snapshotFile = d.snapshotFile := congrArg (·.2.2) setting
  exact ⟨dumpFile ▸ spares.dumpFile, snapshotFile ▸ spares.snapshotFile⟩

namespace Beside

variable {a : Option Aside} {content : Bytes} {lines : List String} {d e : Debugger}

theorem log (b : Beside a content lines d e) (level : Level) (channel : Channel)
    (message : String) :
    Beside a content lines (d.log level channel message) (e.log level channel message) := by
  obtain ⟨host, rfl, beside⟩ := b
  exact ⟨_, rfl, beside.log level channel message⟩

theorem report (b : Beside a content lines d e) (message : String) :
    Beside a content lines (d.report message) (e.report message) := by
  obtain ⟨host, rfl, beside⟩ := b
  exact ⟨_, rfl, beside.report _⟩

theorem mark (b : Beside a content lines d e) (preempted : Bool) :
    Beside a content lines { d with preempted } { e with preempted } := by
  obtain ⟨host, rfl, beside⟩ := b
  exact ⟨host, rfl, beside⟩

theorem preempted (b : Beside a content lines d e) : e.preempted = d.preempted := by
  obtain ⟨host, rfl, -⟩ := b
  rfl

theorem machine (b : Beside a content lines d e) : e.machine = d.machine := by
  obtain ⟨host, rfl, -⟩ := b
  rfl

theorem halt (b : Beside a content lines d e) : Beside a content lines d.halt e.halt := by
  obtain ⟨host, rfl, beside⟩ := b
  unfold Debugger.halt Debugger.logHalt
  rw [withHost_machine]
  cases d.machine.running with
  | true => exact ⟨_, rfl, beside.log _ _ _⟩
  | false => exact ⟨_, rfl, beside⟩

theorem restore (b : Beside a content lines d e) (s : Snapshot) :
    FileTree.Agree (Beside a content lines) (d.restore s) (e.restore s) := by
  obtain ⟨host, rfl, beside⟩ := b
  unfold Debugger.restore Machine.restored
  cases Memory.ofValues s.memory with
  | error e => exact .error _
  | ok memory => exact .ok ⟨_, rfl, beside.log _ _ _⟩

end Beside

end Debugger

namespace Command

variable {a : Option Aside} {content : Bytes} {lines : List String} {d e : Debugger}

theorem ignoring_beside (c : Command) (argv : List String) (b : d.Beside a content lines e) :
    (c.ignoring d argv).Beside a content lines (c.ignoring e argv) := by
  unfold ignoring
  split
  · exact b
  · exact b.log _ _ _

theorem runHalt_beside (b : d.Beside a content lines e) :
    (runHalt d).1.Beside a content lines (runHalt e).1 := by
  have machine := b.machine
  obtain ⟨host, same, beside⟩ := b.halt
  unfold runHalt
  rw [same, machine]
  exact ⟨_, rfl, (beside.log .info .halting s!"halt requested at pc={d.machine.pc}").report _⟩

/-- A command that writes a file ends alike when the writing does. -/
theorem written_beside {written written' : Host × Except Failure Unit} (host : Host)
    (channel : Channel) (result : String) (warning problem : Snapshot.Error → String) :
    let ended (d : Debugger) (written : Host × Except Failure Unit) :
        Debugger × Except Failure Outcome :=
      match written with
      | (host, .ok ()) => ({ d with host }.report result, .ok {})
      | (host, .error (.snapshot e)) =>
          (({ d with host }.log .warning channel (warning e)).reportError (problem e),
            .ok { status := 2 })
      | (host, .error e) => ({ d with host }, .error e)
    written.1.Beside a content lines written'.1 ∧ written'.2 = written.2 →
      (ended d written).1.Beside a content lines (ended (d.withHost host) written').1 ∧
        (ended (d.withHost host) written').2 = (ended d written).2 := by
  obtain ⟨h, done⟩ := written
  obtain ⟨k, done'⟩ := written'
  rintro ended ⟨after, same⟩
  obtain rfl : done' = done := same
  have reached : ({ d with host := h } : Debugger).Beside a content lines
      { d.withHost host with host := k } := ⟨k, rfl, after⟩
  rcases done' with failure | _
  · cases failure
    case snapshot e => exact ⟨(reached.log .warning channel _).report _, rfl⟩
    all_goals exact ⟨reached, rfl⟩
  · exact ⟨reached.report _, rfl⟩

theorem runDump_beside (b : d.Beside a content lines e) (spares : d.Spares a) :
    (runDump d).1.Beside a content lines (runDump e).1 ∧ (runDump e).2 = (runDump d).2 := by
  have whole := b
  obtain ⟨host, rfl, beside⟩ := b
  unfold runDump
  simp only [Debugger.withHost_dumpFile, Debugger.withHost_machine, Debugger.withHost_host]
  split
  · exact ⟨whole, rfl⟩
  · next path file =>
      exact written_beside host .poking _ _ _ (beside.writeDump (spares.dumpFile path file) _)

theorem runSave_beside (b : d.Beside a content lines e) (spares : d.Spares a) :
    (runSave d).1.Beside a content lines (runSave e).1 ∧ (runSave e).2 = (runSave d).2 := by
  have whole := b
  obtain ⟨host, rfl, beside⟩ := b
  unfold runSave
  simp only [Debugger.withHost_snapshotFile, Debugger.withHost_machine, Debugger.withHost_host]
  split
  · exact ⟨whole, rfl⟩
  · next path file =>
      exact written_beside host .saving _ _ _
        (beside.writeSnapshot (spares.snapshotFile path file) _)

theorem resume_beside (b : d.Beside a content lines e) (path : Path) (s : Snapshot) :
    (resume d path s).1.Beside a content lines (resume e path s).1 ∧
      (resume e path s).2 = (resume d path s).2 := by
  unfold resume
  obtain ⟨d', e', d_restored, e_restored, restored⟩ | ⟨failure, d_refused, e_refused⟩ :=
    (b.restore s).cases
  · rw [d_restored, e_restored]
    obtain ⟨host, rfl, beside⟩ := restored
    exact ⟨⟨_, rfl, beside.report _⟩, rfl⟩
  · rw [d_refused, e_refused]
    exact ⟨b, rfl⟩

theorem runLoad_beside (b : d.Beside a content lines e) (spares : d.Spares a) :
    (runLoad d).1.Beside a content lines (runLoad e).1 ∧ (runLoad e).2 = (runLoad d).2 := by
  have whole := b
  obtain ⟨host, rfl, beside⟩ := b
  unfold runLoad
  simp only [Debugger.withHost_snapshotFile, Debugger.withHost_host]
  split
  · exact ⟨whole, rfl⟩
  · next path file =>
      have read := beside.readSnapshot (spares.snapshotFile path file).1
      revert read
      rcases d.host.readSnapshot path with ⟨h, found⟩
      rcases host.readSnapshot path with ⟨k, found'⟩
      rintro ⟨after, same⟩
      obtain rfl : found' = found := same
      have restorable : ({ d with host := h } : Debugger).Beside a content lines
          { d.withHost host with host := k } := ⟨k, rfl, after⟩
      rcases found' with failure | s
      · cases failure
        case snapshot e => exact ⟨(restorable.log .warning .saving _).report _, rfl⟩
        all_goals exact ⟨restorable, rfl⟩
      · exact resume_beside restorable path s

theorem runSet_beside (argv : List String) (b : d.Beside a content lines e) :
    (runSet d argv).1.Beside a content lines (runSet e argv).1 ∧
      (runSet e argv).2 = (runSet d argv).2 := by
  have whole := b
  obtain ⟨host, rfl, beside⟩ := b
  unfold runSet
  rw [Debugger.withHost_attached]
  rcases setArguments argv with failure | ⟨address, value⟩
  · exact ⟨whole.report _, rfl⟩
  · dsimp only
    by_cases inside : address.getD 0 < numCells
    · rw [dif_pos inside, dif_pos inside]
      cases d.attached with
      | false => exact ⟨whole, rfl⟩
      | true =>
          cases value with
          | none => exact ⟨whole, rfl⟩
          | some value => exact ⟨⟨_, rfl, (beside.log .info .poking _).report _⟩, rfl⟩
    · rw [dif_neg inside, dif_neg inside]
      exact ⟨whole.report _, rfl⟩

theorem guarded_beside (c : Command) (argv : List String)
    {f : Debugger → Debugger × Except Failure Outcome}
    (b : d.Beside a content lines e) (spares : d.Spares a)
    (same : ∀ {d e : Debugger}, d.Beside a content lines e → d.Spares a →
      (f d).1.Beside a content lines (f e).1 ∧ (f e).2 = (f d).2) :
    (guarded f c d argv).1.Beside a content lines (guarded f c e argv).1 ∧
      (guarded f c e argv).2 = (guarded f c d argv).2 := by
  obtain ⟨journal, ignored⟩ := c.ignoring_eq d argv
  have left : (c.ignoring d argv).Spares a := spares.of_setting (by rw [ignored]; rfl)
  have both := c.ignoring_beside argv b
  have attached : (c.ignoring e argv).attached = (c.ignoring d argv).attached := by
    obtain ⟨host, e_same, -⟩ := both
    rw [e_same, Debugger.withHost_attached]
  unfold guarded
  rw [attached]
  cases (c.ignoring d argv).attached with
  | false => exact ⟨both, rfl⟩
  | true => exact same both left

theorem carryOut_beside (c : Command) (argv : List String) (b : d.Beside a content lines e)
    (spares : d.Spares a) :
    (c.carryOut d argv).1.Beside a content lines (c.carryOut e argv).1 ∧
      (c.carryOut e argv).2 = (c.carryOut d argv).2 := by
  rw [carryOut_eq_guarded, carryOut_eq_guarded]
  cases c with
  | set => exact runSet_beside argv b
  | halt => exact guarded_beside .halt argv b spares fun b _ => ⟨runHalt_beside b, rfl⟩
  | dump => exact guarded_beside .dump argv b spares runDump_beside
  | save => exact guarded_beside .save argv b spares runSave_beside
  | load => exact guarded_beside .load argv b spares runLoad_beside

theorem run_beside (c : Command) (argv : List String) (b : d.Beside a content lines e)
    (spares : d.Spares a) :
    (c.run d argv).1.Beside a content lines (c.run e argv).1 ∧
      (c.run e argv).2 = (c.run d argv).2 := by
  have ran := c.carryOut_beside argv b spares
  revert ran
  unfold run
  rcases c.carryOut d argv with ⟨d', outcome⟩
  rcases c.carryOut e argv with ⟨e', outcome'⟩
  rintro ⟨after, same⟩
  obtain rfl : outcome' = outcome := same
  cases outcome' with
  | error failure => exact ⟨after, rfl⟩
  | ok outcome =>
      obtain ⟨host, rfl, beside⟩ := after
      exact ⟨⟨host, rfl, beside⟩, rfl⟩

/-- A command that is run beside a trace does the same. -/
theorem dispatch_beside (c : Command) (b : d.Beside a content lines e) (spares : d.Spares a)
    (line : String) : (c.dispatch d line).Beside a content lines (c.dispatch e line) := by
  unfold dispatch
  cases commandArguments line with
  | error failure => exact b.report _
  | ok words =>
      have ran := c.run_beside (words.drop 1) b spares
      revert ran
      dsimp only
      rcases c.run d (words.drop 1) with ⟨d', outcome⟩
      rcases c.run e (words.drop 1) with ⟨e', outcome'⟩
      rintro ⟨after, same⟩
      obtain rfl : outcome' = outcome := same
      cases outcome' with
      | error failure => exact (after.log _ _ _).report _
      | ok outcome => exact after.log _ _ _

end Command

end WordMachine
