import WordMachine.Proofs.CommandEffect

/-!
# Reports of commands

A command line is answered by one report. It opens as a result when the command succeeds, and as an
error when anything is wrong with the line, its arguments, the files or their contents.
-/

namespace WordMachine

/-- One text is another with something more at its end, which opens as given. -/
def Continues (before opening after : String) : Prop :=
  ∃ more, after = before ++ more ∧ opening.toList <+: more.toList

/-- A continuation does not open both ways. -/
theorem Continues.opening_unique {before after : String}
    (failed : Continues before "error: " after) : ¬Continues before "[DBG] " after := by
  rintro ⟨result, after_eq, result_opens⟩
  obtain ⟨problem, rfl, problem_opens⟩ := failed
  have same : problem.toList = result.toList := by
    have texts := congrArg String.toList after_eq
    rwa [String.toList_append, String.toList_append, List.append_cancel_left_eq] at texts
  rw [same] at problem_opens
  rcases List.prefix_or_prefix_of_prefix problem_opens result_opens with first | second
  · exact absurd first (by decide)
  · exact absurd second (by decide)

theorem opens_append {opening text : String} (opens : opening.toList <+: text.toList)
    (more : String) : opening.toList <+: (text ++ more).toList := by
  rw [String.toList_append]
  exact opens.trans (List.prefix_append _ _)

namespace Journal

@[simp] theorem reports_push_record (j : Journal) (r : Record) :
    reports (j.push (.record r)) = j.reports := by simp [reports]

@[simp] theorem reports_push_report (j : Journal) (text : String) :
    reports (j.push (.report text)) = j.reports ++ text := by simp [reports]

end Journal

namespace Debugger

/-- What the operator was told so far. -/
def told (d : Debugger) : String := d.host.journal.reports

variable (d : Debugger)

@[simp] theorem told_log (level : Level) (channel : Channel) (message : String) :
    (d.log level channel message).told = d.told := Journal.reports_push_record _ _

@[simp] theorem told_report (message : String) :
    (d.report message).told = d.told ++ (message ++ "\n") := Journal.reports_push_report _ _

theorem told_halt : d.halt.told = d.told := by
  unfold halt logHalt
  split
  · exact d.told_log _ _ _
  · rfl

theorem told_of_restore {d d' : Debugger} {s : Snapshot} (restored : d.restore s = .ok d') :
    d'.told = d.told := by
  unfold restore at restored
  cases machine : d.machine.restored s with
  | error e => simp [machine, Except.map] at restored
  | ok m =>
      simp only [machine, Except.map, Except.ok.injEq] at restored
      subst restored
      exact Debugger.told_log _ _ _ _

theorem told_ignoring (c : Command) (argv : List String) : (c.ignoring d argv).told = d.told := by
  unfold Command.ignoring
  split
  · rfl
  · exact d.told_log _ _ _

theorem continues_reportError (message : String) :
    Continues d.told "error: " (d.reportError message).told := by
  refine ⟨"error: " ++ message ++ "\n", d.told_report _, ?_⟩
  exact opens_append (opens_append (List.prefix_refl _) message) "\n"

end Debugger

namespace Host

variable (h : Host) (path : Path)

@[simp] theorem reports_log (level : Level) (channel : Channel) (message : String) :
    (h.log level channel message).journal.reports = h.journal.reports :=
  Journal.reports_push_record _ _

theorem reports_of_replace {h h' : Host} {path : Path} {content : Bytes}
    {outcome : Except Failure Unit} (replaced : h.replace path content = (h', outcome)) :
    h'.journal.reports = h.journal.reports := by
  obtain rfl : (h.replace path content).1 = h' := congrArg Prod.fst replaced
  rfl

theorem reports_writeSnapshot (s : Snapshot) :
    (h.writeSnapshot path s).1.journal.reports = h.journal.reports := by
  unfold writeSnapshot
  split
  · rfl
  · split
    · next replaced => exact reports_of_replace replaced
    · next replaced =>
        rw [reports_log]
        exact reports_of_replace replaced

theorem reports_writeDump (cells : List Int) :
    (h.writeDump path cells).1.journal.reports = h.journal.reports := by
  unfold writeDump
  split
  · rfl
  · split
    · next replaced => exact reports_of_replace replaced
    · next replaced =>
        rw [reports_log]
        exact reports_of_replace replaced

theorem reports_readSnapshot : (h.readSnapshot path).1.journal.reports = h.journal.reports := by
  unfold readSnapshot
  split
  · rfl
  · rfl
  · split
    · rfl
    · exact h.reports_log _ _ _

end Host

namespace Command

/-- What the operator has been told when a command ends: a result or an error after its status,
nothing when it is stopped before. -/
def Tells (before : String) (result : Debugger × Except Failure Outcome) : Prop :=
  match result.2 with
  | .ok outcome =>
      Continues before (if outcome.status = 0 then "[DBG] " else "error: ") result.1.told
  | .error _ => result.1.told = before

variable {d d' : Debugger}

theorem tells_result {message : String} {preempts : Bool} (same : d'.told = d.told)
    (opens : "[DBG] ".toList <+: message.toList) :
    Tells d.told (d'.report message, .ok { preempts }) :=
  ⟨message ++ "\n", by rw [d'.told_report, same], opens_append opens "\n"⟩

theorem tells_problem {message : String} {status : Nat} (same : d'.told = d.told)
    (failed : status ≠ 0) : Tells d.told (d'.reportError message, .ok { status }) := by
  have told := d'.continues_reportError message
  rw [same] at told
  simpa [Tells, failed] using told

theorem runHalt_tells (d : Debugger) : Tells d.told ((runHalt d).1, .ok (runHalt d).2) := by
  unfold runHalt
  apply tells_result
  · rw [Debugger.told_log, Debugger.told_halt]
  · repeat apply opens_append
    decide

/-- How a command ends that writes a file, by what becomes of the writing. -/
def EndsAs (before problem : String) (written : Except Failure Unit)
    (result : Debugger × Except Failure Outcome) : Prop :=
  match written with
  | .ok () => result.2 = .ok {} ∧ Continues before "[DBG] " result.1.told
  | .error (.snapshot _) =>
      result.2 = .ok { status := 2 } ∧ Continues before ("error: " ++ problem) result.1.told
  | .error e => result.2 = .error e ∧ result.1.told = before

theorem endsAs_written {written : Host × Except Failure Unit} {result : String} (problem : String)
    (channel : Channel) (warning : Snapshot.Error → String)
    (opens : "[DBG] ".toList <+: result.toList) :
    written.1.journal.reports = d.host.journal.reports →
      EndsAs d.told problem written.2
        (match written with
        | (host, .ok ()) => ({ d with host }.report result, .ok {})
        | (host, .error (.snapshot e)) =>
            (({ d with host }.log .warning channel (warning e)).reportError (problem ++ e.message),
              .ok { status := 2 })
        | (host, .error e) => ({ d with host }, .error e)) := by
  intro kept
  have kept : Debugger.told { d with host := written.1 } = d.told := kept
  rcases written with ⟨host, e | done⟩
  · cases e with
    | snapshot e =>
        refine ⟨rfl, "error: " ++ (problem ++ e.message) ++ "\n", ?_, ?_⟩
        · show (Debugger.report _ _).told = _
          rw [Debugger.told_report, Debugger.told_log, kept]
        · have front : "error: " ++ (problem ++ e.message) = "error: " ++ problem ++ e.message :=
            String.append_assoc.symm
          rw [front]
          exact opens_append (opens_append (List.prefix_refl _) e.message) "\n"
    | _ => exact ⟨rfl, kept⟩
  · refine ⟨rfl, result ++ "\n", ?_, opens_append opens "\n"⟩
    rw [Debugger.told_report, kept]

theorem EndsAs.tells {before problem : String} {written : Except Failure Unit}
    {result : Debugger × Except Failure Outcome} (ends : EndsAs before problem written result) :
    Tells before result := by
  unfold EndsAs at ends
  unfold Tells
  split at ends
  · rw [ends.1]
    exact ends.2
  · obtain ⟨failed, more, told, opens⟩ := ends
    rw [failed]
    rw [String.toList_append] at opens
    exact ⟨more, told, (List.prefix_append _ _).trans opens⟩
  · rw [ends.1]
    exact ends.2

variable {path : Path}

theorem runSave_endsAs (placed : d.snapshotFile = some path) :
    EndsAs d.told "save failed: " (d.host.writeSnapshot path d.machine.snapshot).2 (runSave d) := by
  unfold runSave
  split
  · next lost => simp [lost] at placed
  · next found =>
      obtain rfl := Option.some.inj (found.symm.trans placed)
      refine endsAs_written "save failed: " .saving _ ?_ (d.host.reports_writeSnapshot _ _)
      repeat apply opens_append
      decide

theorem runDump_endsAs (placed : d.dumpFile = some path) :
    EndsAs d.told "dump failed: "
      (d.host.writeDump path (d.machine.memory.toList.map fun w => (w.toNat : Int))).2
      (runDump d) := by
  unfold runDump
  split
  · next lost => simp [lost] at placed
  · next found =>
      obtain rfl := Option.some.inj (found.symm.trans placed)
      refine endsAs_written "dump failed: " .poking _ ?_ (d.host.reports_writeDump _ _)
      repeat apply opens_append
      decide

theorem runSave_tells (d : Debugger) : Tells d.told (runSave d) := by
  cases placed : d.snapshotFile with
  | none =>
      unfold runSave
      rw [placed]
      rfl
  | some path => exact (runSave_endsAs placed).tells

theorem runDump_tells (d : Debugger) : Tells d.told (runDump d) := by
  cases placed : d.dumpFile with
  | none =>
      unfold runDump
      rw [placed]
      rfl
  | some path => exact (runDump_endsAs placed).tells

theorem resume_tells (d : Debugger) (path : Path) (s : Snapshot) :
    Tells d.told (resume d path s) := by
  unfold resume
  split
  · next d' restored =>
      apply tells_result
      · exact Debugger.told_of_restore restored
      · repeat apply opens_append
        decide
  · rfl

theorem runLoad_tells (d : Debugger) : Tells d.told (runLoad d) := by
  unfold runLoad
  split
  · rfl
  · next path _ =>
      have kept := d.host.reports_readSnapshot path
      split
      · next host s read =>
          rw [read] at kept
          have told : { d with host }.told = d.told := kept
          rw [← told]
          exact resume_tells _ path s
      · next host e refused =>
          rw [refused] at kept
          exact tells_problem ((Debugger.told_log _ _ _ _).trans kept) (by decide)
      · next host e _ refused =>
          rw [refused] at kept
          exact kept

theorem tells_poke (d : Debugger) (cell : Cell) (value : Nat) :
    Tells d.told (poke d cell value, .ok {}) := by
  unfold poke
  apply tells_result
  · exact Debugger.told_log _ _ _ _
  · repeat apply opens_append
    decide

theorem runSet_tells (d : Debugger) (argv : List String) : Tells d.told (runSet d argv) := by
  unfold runSet
  split
  · exact tells_problem rfl (by decide)
  · dsimp only
    split
    · split
      · rfl
      · split
        · rfl
        · exact tells_poke d _ _
    · exact tells_problem rfl (by decide)

theorem carryOut_tells (c : Command) (d : Debugger) (argv : List String) :
    Tells d.told (c.carryOut d argv) := by
  by_cases set : c = .set
  · rw [set]
    exact runSet_tells d argv
  · rw [← d.told_ignoring c argv]
    cases c with
    | set => exact absurd rfl set
    | halt | dump | save | load =>
        unfold carryOut
        dsimp only
        split
        · rfl
        · first
            | exact runHalt_tells _
            | exact runDump_tells _
            | exact runSave_tells _
            | exact runLoad_tells _

end Command

namespace Call

/-- A command line is answered by one report, whose opening says whether it succeeded. -/
theorem continues_after (c : Call) :
    Continues c.before.told (if c.Succeeds then "[DBG] " else "error: ") c.after.told := by
  cases split : commandArguments c.line with
  | error e =>
      have fails : ¬c.Succeeds := by simp [Succeeds, status?, arguments?, split, Except.toOption]
      rw [if_neg fails]
      simp only [after, Command.dispatch, split]
      exact c.before.continues_reportError _
  | ok words =>
      have argv : c.arguments? = some (words.drop 1) := by
        simp [arguments?, split, Except.toOption]
      have tells := Command.carryOut_tells c.command c.before (words.drop 1)
      have succeeds := succeeds_iff argv
      rcases ran : c.command.carryOut c.before (words.drop 1) with ⟨d, e | outcome⟩
      · rw [ran] at tells succeeds
        have tells : d.told = c.before.told := tells
        have logged : (d.log .error .input "command failed").told = c.before.told :=
          (d.told_log _ _ _).trans tells
        rw [if_neg (by simp [succeeds]), ← logged]
        simp only [after, Command.dispatch, split, Command.run, ran]
        exact Debugger.continues_reportError _ _
      · rw [ran] at tells succeeds
        have status : (outcome.status = 0) = c.Succeeds := by simp [succeeds]
        simp only [Command.Tells, status] at tells
        simp only [after, Command.dispatch, split, Command.run, ran, Debugger.told_log]
        exact tells

end Call

end WordMachine
