import WordMachine.Proofs.Stepping

/-!
# What never influences a run

The journal and the count of cycles are written and never read back: a session with others in
their place behaves in the same way, whatever commands are run.
-/

namespace WordMachine

namespace Host

def retold (h : Host) (journal : Journal) : Host := { h with journal }

theorem replace_retold (h : Host) (j : Journal) (path : Path) (content : Bytes) :
    (h.retold j).replace path content =
      ((h.replace path content).1.retold j, (h.replace path content).2) := rfl

theorem writeSnapshot_retold (h : Host) (j : Journal) (path : Path) (s : Snapshot) :
    ∃ j', (h.retold j).writeSnapshot path s =
      ((h.writeSnapshot path s).1.retold j', (h.writeSnapshot path s).2) := by
  unfold writeSnapshot
  cases s.encode with
  | error e => exact ⟨j, rfl⟩
  | ok content =>
      dsimp only
      rw [replace_retold]
      rcases h.replace path content with ⟨h', e | done⟩
      · exact ⟨j, rfl⟩
      · exact ⟨_, rfl⟩

theorem writeDump_retold (h : Host) (j : Journal) (path : Path) (cells : List Int) :
    ∃ j', (h.retold j).writeDump path cells =
      ((h.writeDump path cells).1.retold j', (h.writeDump path cells).2) := by
  unfold writeDump
  cases Snapshot.encodeCells cells with
  | error e => exact ⟨j, rfl⟩
  | ok content =>
      dsimp only
      rw [replace_retold]
      rcases h.replace path content with ⟨h', e | done⟩
      · exact ⟨j, rfl⟩
      · exact ⟨_, rfl⟩

theorem readSnapshot_retold (h : Host) (j : Journal) (path : Path) :
    ∃ j', (h.retold j).readSnapshot path =
      ((h.readSnapshot path).1.retold j', (h.readSnapshot path).2) := by
  unfold readSnapshot
  rw [show (h.retold j).files = h.files from rfl]
  rcases h.files.readFile path with e | content
  · cases e <;> exact ⟨j, rfl⟩
  · dsimp only
    cases Snapshot.decode content with
    | error e => exact ⟨j, rfl⟩
    | ok s => exact ⟨_, rfl⟩

end Host

namespace Debugger

def retold (d : Debugger) (cycles : Nat) (journal : Journal) : Debugger :=
  { d with machine := { d.machine with cycles }, host := d.host.retold journal }

section

variable (d : Debugger) (n : Nat) (j : Journal)

@[simp] theorem retold_host : (d.retold n j).host = d.host.retold j := rfl

@[simp] theorem retold_running : (d.retold n j).machine.running = d.machine.running := rfl

@[simp] theorem retold_memory : (d.retold n j).machine.memory = d.machine.memory := rfl

@[simp] theorem retold_snapshot : (d.retold n j).machine.snapshot = d.machine.snapshot := rfl

@[simp] theorem retold_preempted : (d.retold n j).preempted = d.preempted := rfl

@[simp] theorem retold_attached : (d.retold n j).attached = d.attached := rfl

@[simp] theorem retold_dumpFile : (d.retold n j).dumpFile = d.dumpFile := rfl

@[simp] theorem retold_snapshotFile : (d.retold n j).snapshotFile = d.snapshotFile := rfl

end

theorem halt_retold (d : Debugger) (n : Nat) (j : Journal) :
    ∃ j', (d.retold n j).halt = d.halt.retold n j' := by
  unfold halt logHalt
  rw [retold_running]
  cases d.machine.running with
  | true => exact ⟨_, rfl⟩
  | false => exact ⟨j, rfl⟩

theorem restore_retold (d : Debugger) (n : Nat) (j : Journal) (s : Snapshot) :
    ∃ j', (d.retold n j).restore s = (d.restore s).map (·.retold n j') := by
  unfold restore Machine.restored
  cases Memory.ofValues s.memory with
  | error e => exact ⟨j, rfl⟩
  | ok memory => exact ⟨_, rfl⟩

end Debugger

namespace Command

variable (d : Debugger) (n : Nat) (j : Journal) (argv : List String)

theorem ignoring_retold (c : Command) :
    ∃ j', c.ignoring (d.retold n j) argv = (c.ignoring d argv).retold n j' := by
  unfold ignoring
  split
  · exact ⟨j, rfl⟩
  · exact ⟨_, rfl⟩

theorem runHalt_retold :
    ∃ j', runHalt (d.retold n j) = ((runHalt d).1.retold n j', (runHalt d).2) := by
  obtain ⟨j', halted⟩ := d.halt_retold n j
  unfold runHalt
  rw [halted]
  exact ⟨_, rfl⟩

theorem runDump_retold :
    ∃ j', runDump (d.retold n j) = ((runDump d).1.retold n j', (runDump d).2) := by
  unfold runDump
  simp only [Debugger.retold_dumpFile, Debugger.retold_memory, Debugger.retold_host]
  split
  · exact ⟨j, rfl⟩
  · next path file =>
      obtain ⟨j', written⟩ := d.host.writeDump_retold j path
        (d.machine.memory.toList.map fun w => (w.toNat : Int))
      rw [written]
      rcases d.host.writeDump path _ with ⟨h, e | done⟩
      · cases e <;> exact ⟨_, rfl⟩
      · exact ⟨_, rfl⟩

theorem runSave_retold :
    ∃ j', runSave (d.retold n j) = ((runSave d).1.retold n j', (runSave d).2) := by
  unfold runSave
  simp only [Debugger.retold_snapshotFile, Debugger.retold_snapshot, Debugger.retold_host]
  split
  · exact ⟨j, rfl⟩
  · next path file =>
      obtain ⟨j', written⟩ := d.host.writeSnapshot_retold j path d.machine.snapshot
      rw [written]
      rcases d.host.writeSnapshot path _ with ⟨h, e | done⟩
      · cases e <;> exact ⟨_, rfl⟩
      · exact ⟨_, rfl⟩

theorem resume_retold (path : Path) (s : Snapshot) :
    ∃ j', resume (d.retold n j) path s =
      ((resume d path s).1.retold n j', (resume d path s).2) := by
  obtain ⟨j', restored⟩ := d.restore_retold n j s
  unfold resume
  rw [restored]
  cases d.restore s with
  | error e => exact ⟨j, rfl⟩
  | ok d' => exact ⟨_, rfl⟩

theorem runLoad_retold :
    ∃ j', runLoad (d.retold n j) = ((runLoad d).1.retold n j', (runLoad d).2) := by
  unfold runLoad
  simp only [Debugger.retold_snapshotFile, Debugger.retold_host]
  split
  · exact ⟨j, rfl⟩
  · next path file =>
      obtain ⟨j', read⟩ := d.host.readSnapshot_retold j path
      rw [read]
      rcases d.host.readSnapshot path with ⟨h, e | s⟩
      · cases e <;> exact ⟨_, rfl⟩
      · exact resume_retold { d with host := h } n j' path s

theorem poke_retold (cell : Cell) (value : Nat) :
    ∃ j', poke (d.retold n j) cell value = (poke d cell value).retold n j' := ⟨_, rfl⟩

theorem runSet_retold :
    ∃ j', runSet (d.retold n j) argv = ((runSet d argv).1.retold n j', (runSet d argv).2) := by
  unfold runSet
  rw [Debugger.retold_attached]
  rcases setArguments argv with e | ⟨address, value⟩
  · exact ⟨_, rfl⟩
  · dsimp only
    by_cases inside : address.getD 0 < numCells
    · rw [dif_pos inside, dif_pos inside]
      cases d.attached with
      | false => exact ⟨j, rfl⟩
      | true =>
          cases value with
          | none => exact ⟨j, rfl⟩
          | some value =>
              obtain ⟨j', stored⟩ := poke_retold d n j ⟨address.getD 0, inside⟩ value
              exact ⟨j', Prod.ext stored rfl⟩
    · rw [dif_neg inside, dif_neg inside]
      exact ⟨_, rfl⟩

/-- What a command does that needs a machine and takes no arguments. -/
def guarded (f : Debugger → Debugger × Except Failure Outcome) (c : Command) (d : Debugger)
    (argv : List String) : Debugger × Except Failure Outcome :=
  if !(c.ignoring d argv).attached then (c.ignoring d argv, .error .detached)
  else f (c.ignoring d argv)

theorem guarded_retold (c : Command) {f : Debugger → Debugger × Except Failure Outcome}
    (same : ∀ d n j, ∃ j', f (d.retold n j) = ((f d).1.retold n j', (f d).2)) :
    ∃ j', guarded f c (d.retold n j) argv =
      ((guarded f c d argv).1.retold n j', (guarded f c d argv).2) := by
  obtain ⟨j', ignored⟩ := ignoring_retold d n j argv c
  unfold guarded
  rw [ignored, Debugger.retold_attached]
  cases (c.ignoring d argv).attached with
  | false => exact ⟨j', rfl⟩
  | true => exact same _ n j'

theorem carryOut_eq_guarded (c : Command) : c.carryOut d argv =
    match c with
    | .set => runSet d argv
    | .halt => guarded (fun d => ((runHalt d).1, .ok (runHalt d).2)) .halt d argv
    | .dump => guarded runDump .dump d argv
    | .save => guarded runSave .save d argv
    | .load => guarded runLoad .load d argv := by
  cases c <;> rfl

theorem carryOut_retold (c : Command) :
    ∃ j', c.carryOut (d.retold n j) argv =
      ((c.carryOut d argv).1.retold n j', (c.carryOut d argv).2) := by
  rw [carryOut_eq_guarded, carryOut_eq_guarded]
  cases c with
  | set => exact runSet_retold d n j argv
  | halt =>
      apply guarded_retold d n j argv .halt
      intro d n j
      obtain ⟨j', ran⟩ := runHalt_retold d n j
      exact ⟨j', by rw [ran]⟩
  | dump => exact guarded_retold d n j argv .dump runDump_retold
  | save => exact guarded_retold d n j argv .save runSave_retold
  | load => exact guarded_retold d n j argv .load runLoad_retold

theorem run_retold (c : Command) :
    ∃ j', c.run (d.retold n j) argv = ((c.run d argv).1.retold n j', (c.run d argv).2) := by
  obtain ⟨j', ran⟩ := carryOut_retold d n j argv c
  unfold run
  rw [ran]
  rcases c.carryOut d argv with ⟨d', e | outcome⟩
  · exact ⟨j', rfl⟩
  · exact ⟨j', rfl⟩

theorem dispatch_retold (c : Command) (line : String) :
    ∃ j', c.dispatch (d.retold n j) line = (c.dispatch d line).retold n j' := by
  unfold dispatch
  cases commandArguments line with
  | error e => exact ⟨_, rfl⟩
  | ok words =>
      obtain ⟨j', ran⟩ := run_retold d n j (words.drop 1) c
      dsimp only
      rw [ran]
      rcases c.run d (words.drop 1) with ⟨d', e | outcome⟩
      · exact ⟨_, rfl⟩
      · exact ⟨_, rfl⟩

end Command

theorem History.put_retold (history : History) (h : Host) (j : Journal) (path : Path)
    (write : FileTree → Path → Bytes → Except FileError FileTree) (text : Text.Raw) (n : Nat) :
    ∃ j', history.put (h.retold j) path write text n =
      ((history.put h path write text n).1.retold j', (history.put h path write text n).2) := by
  unfold put
  rw [show (h.retold j).files = h.files from rfl]
  split <;> split <;> exact ⟨_, rfl⟩

theorem History.store_retold (history : History) (h : Host) (j : Journal) (text : Text.Raw) :
    ∃ j', history.store (h.retold j) text =
      ((history.store h text).1.retold j', (history.store h text).2) := by
  unfold store
  cases history.path with
  | none => exact ⟨j, rfl⟩
  | some path =>
      dsimp only
      rw [show (h.retold j).files = h.files from rfl]
      rcases h.files.makeDirectories path.parent with ⟨files, _ | e⟩
      · dsimp only
        split
        · exact history.put_retold { h with files } j path _ _ _
        · exact history.put_retold { h with files } j path _ _ _
      · exact ⟨_, rfl⟩

theorem History.append_retold (history : History) (h : Host) (j : Journal) (line : Text.Raw) :
    ∃ j', history.append (h.retold j) line =
      ((history.append h line).1.retold j', (history.append h line).2) := by
  unfold append
  split
  · exact ⟨j, rfl⟩
  · exact store_retold _ h j _

/-- What is remembered does not depend on what is told. -/
theorem Console.remember_retold (c : Console) (h : Host) (j : Journal) (text : String) :
    c.remember (h.retold j) text = c.remember h text := by
  have same (history : History) : (history.append (h.retold j) (Text.Raw.ofString text)).2 =
      (history.append h (Text.Raw.ofString text)).2 := by
    obtain ⟨j', typed⟩ := history.append_retold h j (Text.Raw.ofString text)
    rw [typed]
  simp only [remember, same]

theorem Console.keep_retold (c : Console) (h : Host) (j : Journal) (text : String) :
    ∃ j', c.keep (h.retold j) text = (c.keep h text).retold j' := by
  unfold keep
  cases c.history with
  | none => exact ⟨j, rfl⟩
  | some history =>
      obtain ⟨j', typed⟩ := history.append_retold h j (Text.Raw.ofString text)
      dsimp only [Option.elim]
      exact ⟨j', by rw [typed]⟩

theorem Console.nextLine_retold (c : Console) (h : Host) (j : Journal) :
    ∃ j', c.nextLine (h.retold j) =
      ((c.nextLine h).1, (c.nextLine h).2.1, (c.nextLine h).2.2.retold j') := by
  unfold nextLine
  rcases c.editor.edit c.keys with ⟨_ | text, keys⟩
  · exact ⟨_, rfl⟩
  · obtain ⟨j', kept⟩ := c.keep_retold h j text
    exact ⟨j', by dsimp only; rw [remember_retold, kept]⟩

namespace Feed

mutual

theorem nextLine_retold : ∀ (feed : Feed) (h : Host) (j : Journal),
    ∃ j', feed.nextLine (h.retold j) =
      ((feed.nextLine h).1, (feed.nextLine h).2.1, (feed.nextLine h).2.2.retold j')
  | .stream s, h, j => by
      simp only [nextLine]
      exact ⟨j, rfl⟩
  | .console c, h, j => by
      obtain ⟨j', read⟩ := c.nextLine_retold h j
      simp only [nextLine, read]
      rcases c.nextLine h with ⟨reading, c', h'⟩
      exact ⟨j', rfl⟩
  | .chain feeds, h, j => by
      obtain ⟨j', read⟩ := readFirst_retold feeds h j
      simp only [nextLine, read]
      rcases readFirst feeds h with ⟨reading, feeds', h'⟩
      exact ⟨j', rfl⟩

theorem readFirst_retold : ∀ (feeds : List Feed) (h : Host) (j : Journal),
    ∃ j', readFirst feeds (h.retold j) =
      ((readFirst feeds h).1, (readFirst feeds h).2.1, (readFirst feeds h).2.2.retold j')
  | [], h, j => by
      simp only [readFirst_nil]
      exact ⟨j, rfl⟩
  | feed :: rest, h, j => by
      obtain ⟨j', read⟩ := nextLine_retold feed h j
      rw [readFirst, readFirst, read]
      rcases feed.nextLine h with ⟨reading, next, h'⟩
      cases reading with
      | closed => exact readFirst_retold rest h' j'
      | line text | failed e | interrupted => exact ⟨j', rfl⟩

end

end Feed

def Debugger.marked (d : Debugger) (preempted : Bool) : Debugger := { d with preempted }

theorem Call.after_retold (c : Call) (n : Nat) (j : Journal) :
    ∃ j', (Call.mk c.command c.line (c.before.retold n j)).after = c.after.retold n j' :=
  c.command.dispatch_retold c.before n j c.line

/-- A line is read in the same way, whatever is told, counted or marked. -/
private theorem reads_retold {feed next : Feed} {d : Debugger} {host : Host} {reading : Reading}
    (reads : feed.nextLine d.host = (reading, next, host)) (n : Nat) (j : Journal) (b : Bool) :
    ∃ j', feed.nextLine ((d.retold n j).marked b).host = (reading, next, host.retold j') := by
  obtain ⟨j', read⟩ := feed.nextLine_retold d.host j
  rw [reads] at read
  exact ⟨j', read⟩

theorem Awaits.retold {feed : Feed} {d : Debugger} {calls : List Call}
    {result : Feed × Debugger × GuestLine} (h : Awaits feed d calls result) (n : Nat) (j : Journal)
    (b : Bool) :
    ∃ calls' j' b', Awaits feed ((d.retold n j).marked b) calls'
      (result.1, (result.2.1.retold n j').marked b', result.2.2) := by
  induction h generalizing j b with
  | closed reads =>
      obtain ⟨j', read⟩ := reads_retold reads n j b
      have found := Awaits.closed read
      exact ⟨[], j', b, found⟩
  | failed reads =>
      obtain ⟨j', read⟩ := reads_retold reads n j b
      have found := Awaits.failed read
      exact ⟨[], j', b, found⟩
  | interrupted reads =>
      obtain ⟨j', read⟩ := reads_retold reads n j b
      have found := Awaits.interrupted read
      exact ⟨[], j', b, found⟩
  | line reads word =>
      obtain ⟨j', read⟩ := reads_retold reads n j b
      have found := Awaits.line read word
      exact ⟨[], j', b, found⟩
  | @preempted feed next d host text c reads word asked before preempts =>
      obtain ⟨j', read⟩ := reads_retold reads n j b
      obtain ⟨j'', after⟩ := c.after_retold n j'
      let c' : Call := ⟨c.command, c.line, c.before.retold n j'⟩
      have before' : c'.before = { (d.retold n j).marked b with
          host := host.retold j', preempted := false } := by
        show c.before.retold n j' = _
        rw [before]
        rfl
      have after : c'.after = c.after.retold n j'' := after
      generalize c.after = left at after preempts
      have preempts' : c'.after.preempted = true := by
        rw [after, Debugger.retold_preempted, preempts]
      have found := Awaits.preempted (c := c') read word asked before' preempts'
      rw [after] at found
      exact ⟨[c'], j'', false, found⟩
  | @command feed next d host text c calls result reads word asked before stays rest ih =>
      obtain ⟨j', read⟩ := reads_retold reads n j b
      obtain ⟨j'', after⟩ := c.after_retold n j'
      let c' : Call := ⟨c.command, c.line, c.before.retold n j'⟩
      have before' : c'.before = { (d.retold n j).marked b with
          host := host.retold j', preempted := false } := by
        show c.before.retold n j' = _
        rw [before]
        rfl
      have after : c'.after = c.after.retold n j'' := after
      -- the search goes on from the mark that the command left
      generalize c.after = left at after stays rest ih
      have stays' : c'.after.preempted = false := by
        rw [after, Debugger.retold_preempted, stays]
      obtain ⟨calls', k, b', later⟩ := ih j'' left.preempted
      have same : (left.retold n j'').marked left.preempted = c'.after := after.symm
      rw [same] at later
      exact ⟨c' :: calls', k, b', .command (c := c') read word asked before' stays' later⟩

theorem awaitLine_retold (feed : Feed) (d : Debugger) (n : Nat) (j : Journal) (b : Bool) :
    ∃ j' b', awaitLine feed ((d.retold n j).marked b) =
      ((awaitLine feed d).1, ((awaitLine feed d).2.1.retold n j').marked b',
        (awaitLine feed d).2.2) := by
  obtain ⟨calls', j', b', found⟩ := (awaits feed d).retold n j b
  exact ⟨j', b', found.awaitLine_eq⟩

end WordMachine
