import WordMachine.Proofs.Stepping

/-!
# What remains of the input

A session changes its feed by reading lines of it only, whatever becomes of the files meanwhile. So
what every read keeps holds of the feed at all times: one that holds no interrupt hands out none,
and a session that reads from it is never interrupted.
-/

namespace WordMachine

namespace TextStream

theorem ending_close (s : TextStream) : s.close.2.ending = s.ending := by
  unfold close
  split
  · rfl
  · dsimp only
    split <;> rfl

theorem ending_fill (s : TextStream) (t : FileTree) : (s.fill t).2.ending = s.ending := by
  fun_induction fill s t with
  | case1 s => exact s.ending_close
  | case2 => rfl
  | case3 s block source begun text decoder fed s' short ih => exact ih
  | case4 => rfl

theorem ending_take (s : TextStream) : s.take.2.ending = s.ending := by
  unfold take
  split <;> rfl

theorem take_ne_interrupted {s : TextStream} (calm : s.ending ≠ .interrupts) :
    s.take.1 ≠ .interrupted := by
  unfold take
  split
  · exact Reading.noConfusion
  · cases ending : s.ending with
    | closes | fails e => exact Reading.noConfusion
    | interrupts => exact absurd ending calm

theorem ending_nextLine (s : TextStream) (t : FileTree) :
    (s.nextLine t).2.ending = s.ending := by
  have filled := s.ending_fill t
  unfold nextLine
  split
  · rcases fill : s.fill t with ⟨_ | e, s'⟩
    · rw [fill] at filled
      exact s'.ending_take.trans filled
    · rw [fill] at filled
      exact filled
  · exact s.ending_take

theorem nextLine_ne_interrupted {s : TextStream} (calm : s.ending ≠ .interrupts) (t : FileTree) :
    (s.nextLine t).1 ≠ .interrupted := by
  have filled := s.ending_fill t
  unfold nextLine
  split
  · rcases fill : s.fill t with ⟨_ | e, s'⟩
    · rw [fill] at filled
      apply take_ne_interrupted
      rw [filled]
      exact calm
    · exact Reading.noConfusion
  · exact take_ne_interrupted calm

end TextStream

/-- An interrupt key ends the input of a console; it does not interrupt the run. -/
theorem Console.nextLine_ne_interrupted (c : Console) (h : Host) :
    (c.nextLine h).1 ≠ .interrupted := by
  unfold nextLine
  split
  · exact Reading.noConfusion
  · exact Reading.noConfusion

namespace Feed

mutual

/-- None of the streams of a feed ends with an interrupt. -/
def Uninterrupted : Feed → Prop
  | .stream s => s.ending ≠ .interrupts
  | .console _ => True
  | .chain feeds => AllUninterrupted feeds

def AllUninterrupted : List Feed → Prop
  | [] => True
  | feed :: rest => feed.Uninterrupted ∧ AllUninterrupted rest

end

mutual

theorem Uninterrupted.nextLine : ∀ {feed : Feed}, feed.Uninterrupted → ∀ h : Host,
    (feed.nextLine h).1 ≠ .interrupted ∧ (feed.nextLine h).2.1.Uninterrupted
  | .stream s, calm, h => by
      have kept : (s.nextLine h.files).2.ending ≠ .interrupts := by
        rw [s.ending_nextLine]
        exact calm
      simp only [Feed.nextLine]
      exact ⟨TextStream.nextLine_ne_interrupted calm h.files, kept⟩
  | .console c, _, h => by
      simp only [Feed.nextLine]
      exact ⟨c.nextLine_ne_interrupted h, trivial⟩
  | .chain feeds, calm, h => by
      simp only [Feed.nextLine]
      exact AllUninterrupted.readFirst calm h

theorem AllUninterrupted.readFirst : ∀ {feeds : List Feed}, AllUninterrupted feeds → ∀ h : Host,
    (Feed.readFirst feeds h).1 ≠ .interrupted ∧ AllUninterrupted (Feed.readFirst feeds h).2.1
  | [], _, h => by
      rw [readFirst_nil]
      exact ⟨Reading.noConfusion, trivial⟩
  | feed :: rest, calm, h => by
      obtain ⟨reads, kept⟩ := Uninterrupted.nextLine calm.1 h
      rw [Feed.readFirst]
      rcases read : feed.nextLine h with ⟨reading, next, h'⟩
      rw [read] at reads kept
      cases reading with
      | closed => exact AllUninterrupted.readFirst calm.2 h'
      | line text | failed e => exact ⟨reads, kept, calm.2⟩
      | interrupted => exact absurd rfl reads

end

/-- One feed after some reads of another one, whatever was in the files at the time. -/
inductive Leaves (feed : Feed) : Feed → Prop where
  | refl : Leaves feed feed
  | read {next : Feed} (h : Leaves feed next) (host : Host) : Leaves feed (next.nextLine host).2.1

theorem Leaves.of_reads {feed next rest : Feed} {host host' : Host} {reading : Reading}
    (h : feed.Leaves next) (reads : next.nextLine host = (reading, rest, host')) :
    feed.Leaves rest := by
  have read := h.read host
  rw [reads] at read
  exact read

theorem Leaves.trans {feed next last : Feed} (h : feed.Leaves next) (rest : next.Leaves last) :
    feed.Leaves last := by
  induction rest with
  | refl => exact h
  | read _ host ih => exact ih.read host

theorem Uninterrupted.leaves {feed next : Feed} (calm : feed.Uninterrupted)
    (h : feed.Leaves next) : next.Uninterrupted := by
  induction h with
  | refl => exact calm
  | read _ host ih => exact (ih.nextLine host).2

theorem Uninterrupted.of_reads {feed next : Feed} {h h' : Host} {reading : Reading}
    (calm : feed.Uninterrupted) (reads : feed.nextLine h = (reading, next, h')) :
    reading ≠ .interrupted := by
  have read := (calm.nextLine h).1
  rw [reads] at read
  exact read

end Feed

theorem Awaits.leaves {feed : Feed} {d : Debugger} {calls : List Call}
    {result : Feed × Debugger × GuestLine} (h : Awaits feed d calls result) :
    feed.Leaves result.1 := by
  induction h with
  | closed reads | failed reads | interrupted reads | line reads | preempted reads =>
      exact Feed.Leaves.refl.of_reads reads
  | command reads word asked before stays rest ih =>
      exact (Feed.Leaves.refl.of_reads reads).trans ih

theorem Awaits.uninterrupted {feed : Feed} {d : Debugger} {calls : List Call}
    {result : Feed × Debugger × GuestLine} (h : Awaits feed d calls result)
    (calm : feed.Uninterrupted) : result.2.2 ≠ .interrupted := by
  induction h with
  | closed | failed | line | preempted => exact GuestLine.noConfusion
  | interrupted reads => exact absurd rfl (calm.of_reads reads)
  | command reads word asked before stays rest ih =>
      exact ih (calm.leaves (Feed.Leaves.refl.of_reads reads))

namespace Session

variable {s : Session}

theorem deliver_feed (s : Session) (result : Feed × Debugger × GuestLine) :
    (s.deliver result).1.feed = result.1 := by
  obtain ⟨feed, d, line⟩ := result
  cases line <;> rfl

theorem nextChar_leaves (s : Session) : s.feed.Leaves s.nextChar.1.feed := by
  cases pending : s.debugger.pending with
  | cons c rest =>
      rw [nextChar_of_pending pending]
      exact .refl
  | nil =>
      rw [nextChar_of_waiting pending, deliver_feed]
      exact (awaits s.feed s.flushTrace.debugger).leaves

theorem perform_leaves (s : Session) (next : Int) (effect : Effect) :
    s.feed.Leaves (s.perform next effect).1.feed := by
  cases effect with
  | emit unit =>
      rw [perform_emit]
      split <;> exact .refl
  | await cell =>
      have read := s.nextChar_leaves
      rw [perform_await]
      rcases asked : s.nextChar with ⟨t, delivery⟩
      rw [asked] at read
      cases delivery <;> exact read
  | _ => exact .refl

theorem step_of_stopped (stopped : s.machine.running = false) : s.step = (s, none) := by
  simp [step, stopped]

/-- What holds of a step: a machine that stands still does nothing, one without an instruction that
can be carried out fails, and the others carry theirs out. -/
@[elab_as_elim]
theorem step_elim {motive : Session × Option Failure → Prop} (s : Session)
    (still : s.machine.running = false → motive (s, none))
    (refused : ∀ t cause, s.machine.running = true → s.machine.upcoming = .error cause →
      s.Near t → motive (t.fail cause))
    (carried_out : ∀ i effect, s.machine.running = true → s.machine.upcoming = .ok (i, effect) →
      motive ((s.poised i).perform (s.machine.pc + i.opcode.size) effect)) : motive s.step := by
  cases running : s.machine.running with
  | false =>
      rw [step_of_stopped running]
      exact still running
  | true =>
      rcases upcoming : s.machine.upcoming with cause | ⟨i, effect⟩
      · obtain ⟨t, near, step⟩ := step_of_refused running upcoming
        rw [step]
        exact refused t cause running upcoming near
      · rw [step_of_upcoming running upcoming]
        exact carried_out i effect running upcoming

/-- A step that is completed has carried an instruction out. -/
theorem performed_of_completed {t : Session} (running : s.machine.running = true)
    (step : s.step = (t, none)) :
    ∃ i effect, s.machine.upcoming = .ok (i, effect) ∧
      (s.poised i).perform (s.machine.pc + i.opcode.size) effect = (t, none) := by
  rcases upcoming : s.machine.upcoming with cause | ⟨i, effect⟩
  · obtain ⟨u, -, refused⟩ := step_of_refused running upcoming
    rw [refused] at step
    cases congrArg Prod.snd step
  · exact ⟨i, effect, rfl, (step_of_upcoming running upcoming).symm.trans step⟩

/-- A step does nothing to the feed but read it. -/
theorem step_leaves (s : Session) : s.feed.Leaves s.step.1.feed := by
  refine s.step_elim ?_ ?_ ?_
  · intro stopped
    exact .refl
  · intro t cause running refused near
    have kept : (t.fail cause).1.feed = s.feed := near.feed
    rw [kept]
    exact .refl
  · intro i effect running upcoming
    have read := (s.poised i).perform_leaves (s.machine.pc + i.opcode.size) effect
    rw [(s.near_poised i).feed] at read
    exact read

theorem nextChar_uninterrupted (calm : s.feed.Uninterrupted) : s.nextChar.2 ≠ .interrupted := by
  cases pending : s.debugger.pending with
  | cons c rest =>
      rw [nextChar_of_pending pending]
      exact Delivery.noConfusion
  | nil =>
      have found := (awaits s.feed s.flushTrace.debugger).uninterrupted calm
      rw [nextChar_of_waiting pending]
      rcases line : awaitLine s.feed s.flushTrace.debugger with ⟨feed, d, outcome⟩
      rw [line] at found
      cases outcome with
      | line text | preempted | failed cause => exact Delivery.noConfusion
      | interrupted => exact absurd rfl found

theorem perform_uninterrupted (calm : s.feed.Uninterrupted) (next : Int) (effect : Effect) :
    (s.perform next effect).2 ≠ some .interrupted := by
  cases effect with
  | emit unit =>
      rw [perform_emit]
      split <;> simp
  | await cell =>
      have given := nextChar_uninterrupted calm
      rw [perform_await]
      rcases asked : s.nextChar with ⟨t, delivery⟩
      rw [asked] at given
      cases delivery with
      | char unit | preempted => simp
      | failed cause => simp [fail]
      | interrupted => exact absurd rfl given
  | _ => exact (Option.some_ne_none _).symm

/-- A session without interrupts in its input is not interrupted. -/
theorem step_uninterrupted (calm : s.feed.Uninterrupted) : s.step.2 ≠ some .interrupted := by
  refine s.step_elim ?_ ?_ ?_
  · intro stopped
    exact (Option.some_ne_none _).symm
  · intro t cause running refused near
    simp [fail]
  · intro i effect running upcoming
    have kept : (s.poised i).feed.Uninterrupted := (s.near_poised i).feed ▸ calm
    exact perform_uninterrupted kept _ effect

end Session

end WordMachine
