import WordMachine.Proofs.CommandOutcome

/-!
# Commands that only look

A `dump`, a `save`, or a `set` that is refused is as good as not there: a guest whose input has such
lines does what it does without them, whatever becomes of the files that they write.
-/

namespace WordMachine

/-- A command line that the guest cannot notice: a `dump` or a `save`, or a `set` that is refused. -/
def overlooked (attached : Bool) (line : String) : Bool :=
  match Command.ofName? (commandWord line) with
  | some .dump | some .save => true
  | some .set => !decide (Call.Succeeds ⟨.set, line, { attached }⟩)
  | _ => false

/-- A debugger with the same machine, which has read as far into the same line. -/
structure Debugger.SameFor (d d' : Debugger) : Prop where
  machine : d'.machine = d.machine
  pending : d'.pending = d.pending
  attached : d'.attached = d.attached

theorem Debugger.SameFor.halt {d d' : Debugger} (h : d.SameFor d') : d.halt.SameFor d'.halt where
  machine := by rw [halt_machine, halt_machine, h.machine]
  pending := by rw [halt_pending, halt_pending, h.pending]
  attached := by
    have kept (d : Debugger) : d.halt.attached = d.attached := congrArg Prod.fst d.halt_setting
    rw [kept, kept, h.attached]

namespace Call

variable {c c' : Call}

/-- A `halt` or a `set` does the same to debuggers that are the same for the guest. -/
theorem sameFor_after (same : c.before.SameFor c'.before) (command : c'.command = c.command)
    (line : c'.line = c.line) (kind : c.command = .halt ∨ c.command = .set)
    (fresh : c'.before.preempted = c.before.preempted) :
    c.after.SameFor c'.after ∧ c'.after.preempted = c.after.preempted := by
  have refused (fails : ¬c.Succeeds) (fails' : ¬c'.Succeeds) :
      c.after.SameFor c'.after ∧ c'.after.preempted = c.after.preempted := by
    obtain ⟨host, after⟩ := quiet_after (.inr (.inr fails))
    obtain ⟨host', after'⟩ := quiet_after (.inr (.inr fails'))
    rw [after, after']
    exact ⟨⟨same.machine, same.pending, same.attached⟩, fresh⟩
  rcases kind with halt | set
  · have both : c'.Succeeds ↔ c.Succeeds := by
      rw [succeeds_halt_iff halt, succeeds_halt_iff (command.trans halt), same.attached,
        arguments?_congr line]
    by_cases succeeds : c.Succeeds
    · obtain ⟨host, after⟩ := halted_after halt succeeds
      obtain ⟨host', after'⟩ := halted_after (command.trans halt) (both.mpr succeeds)
      rw [after, after']
      exact ⟨⟨by rw [same.machine], same.pending, same.attached⟩, rfl⟩
    · exact refused succeeds (mt both.mp succeeds)
  · have both := poke?_congr command line same.attached
    cases poke : c.poke? with
    | none =>
        apply refused
        · rw [succeeds_set_iff set, poke]
          decide
        · rw [succeeds_set_iff (command.trans set), both, poke]
          decide
    | some target =>
        obtain ⟨cell, value⟩ := target
        obtain ⟨host, after⟩ := stored_after poke
        obtain ⟨host', after'⟩ := stored_after (both.trans poke)
        rw [after, after']
        exact ⟨⟨by rw [same.machine], same.pending, same.attached⟩, fresh⟩

/-- A `set` is overlooked exactly where it fails. -/
theorem overlooked_set_iff (word : Command.ofName? (commandWord c.line) = some .set)
    (set : c.command = .set) : overlooked c.before.attached c.line = true ↔ ¬c.Succeeds := by
  have same : Succeeds ⟨.set, c.line, { attached := c.before.attached }⟩ ↔ c.Succeeds := by
    have poke : poke? ⟨.set, c.line, { attached := c.before.attached }⟩ = c.poke? :=
      poke?_congr set.symm rfl rfl
    rw [succeeds_set_iff rfl, succeeds_set_iff set, poke]
  simp only [overlooked, word, same, Bool.not_eq_true', decide_eq_false_iff_not]

theorem quiet_of_overlooked (word : Command.ofName? (commandWord c.line) = some c.command)
    (hidden : overlooked c.before.attached c.line = true) :
    c.command = .dump ∨ c.command = .save ∨ ¬c.Succeeds := by
  cases command : c.command with
  | dump => exact .inl rfl
  | save => exact .inr (.inl rfl)
  | set =>
      rw [command] at word
      exact .inr (.inr ((overlooked_set_iff word command).mp hidden))
  | halt | load => simp [overlooked, word, command] at hidden

theorem heard_of_not_overlooked {attached : Bool}
    (word : Command.ofName? (commandWord c.line) = some c.command) (other : c.command ≠ .load)
    (heard : overlooked attached c.line = false) : c.command = .halt ∨ c.command = .set := by
  cases command : c.command with
  | halt => exact .inl rfl
  | set => exact .inr rfl
  | load => exact absurd command other
  | dump | save => simp [overlooked, word, command] at heard

end Call

/-- Of two sources the second one has the lines of the first that are not overlooked, none of which
goes on from a snapshot. -/
def Feed.Abridges (attached : Bool) (feed feed' : Feed) : Prop :=
  ∃ (lines : List String) (ending : StreamEnd),
    (∀ line ∈ lines, Command.ofName? (commandWord line) ≠ some .load) ∧
    feed = .stream (.ofLines lines ending) ∧
    feed' = .stream (.ofLines (lines.filter (!overlooked attached ·)) ending)

/-- The search for the guest's next line ends alike with and without the lines that are
overlooked. -/
theorem awaitLine_abridges {lines : List String} {attached : Bool} (ending : StreamEnd)
    {d d' : Debugger} (stays : ∀ line ∈ lines, Command.ofName? (commandWord line) ≠ some .load)
    (at_start : d.attached = attached) (same : d.SameFor d') :
    let r := awaitLine (.stream (.ofLines lines ending)) d
    let r' := awaitLine (.stream (.ofLines (lines.filter (!overlooked attached ·)) ending)) d'
    r.1.Abridges attached r'.1 ∧ r.2.1.SameFor r'.2.1 ∧ r.2.1.attached = attached ∧
      r'.2.2 = r.2.2 := by
  induction lines generalizing d d' with
  | nil =>
      have ended := Feed.nextLine_stream_nil ending
      simp only [List.filter_nil]
      rw [awaitLine_eq, awaitLine_eq, ended, ended]
      cases ending <;>
        exact ⟨⟨[], _, by simp, rfl, rfl⟩, ⟨same.machine, same.pending, same.attached⟩, at_start, rfl⟩
  | cons line lines ih =>
      have later := fun l mem => stays l (List.mem_cons_of_mem line mem)
      have reads := Feed.nextLine_stream_cons line
      cases word : Command.ofName? (commandWord line) with
      | none =>
          have heard : overlooked attached line = false := by simp [overlooked, word]
          simp only [List.filter_cons, heard, Bool.not_false, if_true]
          rw [awaitLine_eq, awaitLine_eq, reads, reads]
          simp only [word]
          exact ⟨⟨lines, ending, later, rfl, rfl⟩, ⟨same.machine, same.pending, same.attached⟩,
            at_start, trivial⟩
      | some command =>
          let c : Call := ⟨command, line, { d with preempted := false }⟩
          have goes_on := awaitLine_of_command (c := c) (reads lines ending d.host) word rfl
          have at_end : c.after.attached = attached :=
            (congrArg Prod.fst c.setting_after).trans at_start
          cases hidden : overlooked attached line with
          | true =>
              obtain ⟨host, after⟩ := c.quiet_after (c.quiet_of_overlooked word (at_start ▸ hidden))
              have kept : c.after.SameFor d' := by
                rw [after]
                exact ⟨same.machine, same.pending, same.attached⟩
              have unmarked : c.after.preempted = false := by rw [after]
              simp only [List.filter_cons, hidden, Bool.not_true, Bool.false_eq_true, if_false]
              rw [goes_on, unmarked, if_neg Bool.false_ne_true]
              exact ih later at_end kept
          | false =>
              let c' : Call := ⟨command, line, { d' with preempted := false }⟩
              have kind := c.heard_of_not_overlooked word
                (fun load => stays line List.mem_cons_self (load ▸ word)) hidden
              have before : c.before.SameFor c'.before :=
                ⟨same.machine, same.pending, same.attached⟩
              obtain ⟨after, mark⟩ := Call.sameFor_after before rfl rfl kind rfl
              have goes_on' := awaitLine_of_command (c := c')
                (reads (lines.filter (!overlooked attached ·)) ending d'.host) word rfl
              simp only [List.filter_cons, hidden, Bool.not_false, if_true]
              rw [goes_on, goes_on', mark]
              cases preempted : c.after.preempted with
              | true =>
                  simp only [if_true]
                  exact ⟨⟨lines, ending, later, rfl, rfl⟩,
                    ⟨after.machine, after.pending, after.attached⟩, at_end, trivial⟩
              | false =>
                  simp only [Bool.false_eq_true, if_false]
                  exact ih later at_end after

namespace Session

/-- The second session is the first one but for lines of input that are overlooked, and but for what
surrounds the machine. -/
structure Abridges (s t : Session) : Prop where
  debugger : s.debugger.SameFor t.debugger
  output : t.output = s.output
  feed : s.feed.Abridges s.debugger.attached t.feed

namespace Abridges

variable {s t s' t' : Session}

theorem machine (h : s.Abridges t) : t.machine = s.machine := h.debugger.machine

theorem mapMachine (h : s.Abridges t) (f : Machine → Machine) :
    (s.mapMachine f).Abridges (t.mapMachine f) :=
  ⟨⟨congrArg f h.debugger.machine, h.debugger.pending, h.debugger.attached⟩, h.output, h.feed⟩

theorem near (h : s.Abridges t) (left : s.Near s') (right : t.Near t')
    (cycles : t'.machine.cycles = s'.machine.cycles) : s'.Abridges t' where
  debugger :=
    { machine := by
        show t'.machine = s'.machine
        rw [left.machine, right.machine, h.machine, cycles]
      pending := by rw [left.pending, right.pending, h.debugger.pending]
      attached := by
        have kept : s'.debugger.attached = s.debugger.attached := congrArg Prod.fst left.setting
        have kept' : t'.debugger.attached = t.debugger.attached := congrArg Prod.fst right.setting
        rw [kept, kept', h.debugger.attached] }
  output := by rw [left.output, right.output, h.output]
  feed := by
    have kept : s'.debugger.attached = s.debugger.attached := congrArg Prod.fst left.setting
    rw [left.feed, right.feed, kept]
    exact h.feed

theorem fail (h : s.Abridges t) (cause : Fault.Cause) :
    (s.fail cause).1.Abridges (t.fail cause).1 ∧ (t.fail cause).2 = (s.fail cause).2 := by
  have pc : t.machine.pc = s.machine.pc := by rw [h.machine]
  let fault : Fault := { cause, pc := some s.machine.pc }
  have stopped := h.mapMachine (·.stopped fault)
  unfold Session.fail
  rw [pc]
  exact ⟨⟨⟨stopped.machine, stopped.debugger.pending, stopped.debugger.attached⟩, stopped.output,
    stopped.feed⟩, rfl⟩

theorem deliver {feed feed' : Feed} {d d' : Debugger} (output : t.output = s.output)
    (debugger : d.SameFor d') (feeds : feed.Abridges d.attached feed') (line : GuestLine) :
    (s.deliver (feed, d, line)).1.Abridges (t.deliver (feed', d', line)).1 ∧
      (t.deliver (feed', d', line)).2 = (s.deliver (feed, d, line)).2 := by
  cases line with
  | preempted | failed cause | interrupted => exact ⟨⟨debugger, output, feeds⟩, rfl⟩
  | line text =>
      refine ⟨?_, rfl⟩
      unfold Session.deliver
      dsimp only
      split <;> exact ⟨⟨debugger.machine, rfl, debugger.attached⟩, output, feeds⟩

theorem nextChar (h : s.Abridges t) :
    s.nextChar.1.Abridges t.nextChar.1 ∧ t.nextChar.2 = s.nextChar.2 := by
  cases pending : s.debugger.pending with
  | cons c rest =>
      rw [nextChar_of_pending pending, nextChar_of_pending (h.debugger.pending.trans pending)]
      exact ⟨⟨⟨h.machine, rfl, h.debugger.attached⟩, h.output, h.feed⟩, rfl⟩
  | nil =>
      obtain ⟨host, flushed⟩ := s.flushTrace_debugger
      obtain ⟨host', flushed'⟩ := t.flushTrace_debugger
      have same : s.flushTrace.debugger.SameFor t.flushTrace.debugger := by
        rw [flushed, flushed']
        exact ⟨h.machine, h.debugger.pending, h.debugger.attached⟩
      have attached : s.flushTrace.debugger.attached = s.debugger.attached := by rw [flushed]
      obtain ⟨lines, ending, stays, s_feed, t_feed⟩ := h.feed
      obtain ⟨feeds, debuggers, kept, ends⟩ := awaitLine_abridges ending stays attached same
      rw [nextChar_of_waiting pending, nextChar_of_waiting (h.debugger.pending.trans pending),
        s_feed, t_feed]
      rcases heard : awaitLine (.stream (.ofLines lines ending)) s.flushTrace.debugger with
        ⟨feed, d, line⟩
      rcases abridged : awaitLine (.stream (.ofLines
          (lines.filter (!overlooked s.debugger.attached ·)) ending)) t.flushTrace.debugger with
        ⟨feed', d', line'⟩
      rw [heard, abridged] at feeds debuggers ends
      rw [heard] at kept
      obtain rfl : line' = line := ends
      have output : t.flushTrace.output = s.flushTrace.output := by
        rw [flushTrace_output, flushTrace_output, h.output]
      exact deliver output debuggers (kept ▸ feeds) line'

theorem perform (h : s.Abridges t) (next : Int) (effect : Effect) :
    (s.perform next effect).1.Abridges (t.perform next effect).1 ∧
      (t.perform next effect).2 = (s.perform next effect).2 := by
  cases effect with
  | emit unit =>
      rw [perform_emit, perform_emit, h.output]
      split
      · have applied := h.mapMachine (·.apply next (.emit unit))
        exact ⟨⟨applied.debugger, rfl, applied.feed⟩, rfl⟩
      · exact ⟨h, rfl⟩
  | await cell =>
      obtain ⟨heard, same⟩ := h.nextChar
      rw [perform_await, perform_await]
      rcases s_next : s.nextChar with ⟨s', delivery⟩
      rcases t_next : t.nextChar with ⟨t', delivery'⟩
      rw [s_next, t_next] at heard same
      obtain rfl : delivery' = delivery := same
      cases delivery' with
      | char unit => exact ⟨heard.mapMachine (·.apply next (.store cell unit)), rfl⟩
      | preempted | interrupted => exact ⟨heard, rfl⟩
      | failed cause => exact heard.fail cause
  | halt | leave =>
      have moved := (h.mapMachine ({ · with pc := next })).debugger
      have attached (d : Debugger) : d.halt.attached = d.attached := congrArg Prod.fst d.halt_setting
      refine ⟨⟨.halt ⟨moved.machine, moved.pending, moved.attached⟩, h.output, ?_⟩, rfl⟩
      show s.feed.Abridges (Debugger.halt _).attached t.feed
      rw [attached]
      exact h.feed
  | _ => exact ⟨h.mapMachine (·.apply next _), rfl⟩

theorem step (h : s.Abridges t) : s.step.1.Abridges t.step.1 ∧ t.step.2 = s.step.2 := by
  have machine := h.machine
  cases running : s.machine.running with
  | false =>
      have stopped : t.machine.running = false := by rw [machine, running]
      have still {u : Session} (stopped : u.machine.running = false) : u.step = (u, none) := by
        simp only [Session.step, stopped, Bool.not_false, if_true]
      rw [still running, still stopped]
      exact ⟨h, rfl⟩
  | true =>
      have running' : t.machine.running = true := by rw [machine, running]
      rcases upcoming : s.machine.upcoming with cause | ⟨i, effect⟩
      · obtain ⟨s', left, s_step, s_cycles⟩ := step_of_refused_counted running upcoming
        obtain ⟨t', right, t_step, t_cycles⟩ :=
          step_of_refused_counted running' (machine ▸ upcoming)
        have cycles : t'.machine.cycles = s'.machine.cycles := by rw [t_cycles, s_cycles, machine]
        rw [s_step, t_step]
        exact (h.near left right cycles).fail cause
      · have poised := h.near (s.near_poised i) (t.near_poised i)
          (by rw [poised_machine, poised_machine, machine])
        rw [step_of_upcoming running upcoming, step_of_upcoming running' (machine ▸ upcoming),
          machine]
        exact poised.perform _ effect

/-- A run hears nothing of what is overlooked. -/
theorem run (h : s.Abridges t) (n : Nat) :
    (s.run n).1.Abridges (t.run n).1 ∧ (t.run n).2 = (s.run n).2 := by
  induction n generalizing s t with
  | zero => exact ⟨h, rfl⟩
  | succ n ih =>
      cases running : s.machine.running with
      | false =>
          have stopped : t.machine.running = false := by rw [h.machine, running]
          rw [run_of_stopped running, run_of_stopped stopped]
          exact ⟨h, rfl⟩
      | true =>
          have running' : t.machine.running = true := by rw [h.machine, running]
          obtain ⟨next, ends⟩ := h.step
          rcases s_step : s.step with ⟨s', failure⟩
          rcases t_step : t.step with ⟨t', failure'⟩
          rw [s_step, t_step] at next ends
          obtain rfl : failure' = failure := ends
          cases failure' with
          | some failure =>
              rw [run_succ_of_failure running s_step, run_succ_of_failure running' t_step]
              exact ⟨next, rfl⟩
          | none =>
              obtain ⟨later, count⟩ := ih next
              rw [run_succ running s_step, run_succ running' t_step]
              exact ⟨later, by rw [count]⟩

end Abridges

/-- Lines that are overlooked can be left out: with them and without them a run of any length counts
the same steps, ends in the same failure if in one at all, and leaves the guest and its output in
the same state, whatever the files are. A `set` is overlooked exactly where it is refused. -/
theorem run_without_overlooked (s : Session) (host : Host) (lines : List String)
    (ending : StreamEnd) (stays : ∀ line ∈ lines, Command.ofName? (commandWord line) ≠ some .load)
    (n : Nat) :
    let whole : Session := { s with feed := .stream (.ofLines lines ending) }
    let abridged : Session :=
      { s with
        debugger := { s.debugger with host }
        feed := .stream (.ofLines (lines.filter (!overlooked s.debugger.attached ·)) ending) }
    (abridged.run n).2 = (whole.run n).2 ∧
      (abridged.run n).1.machine = (whole.run n).1.machine ∧
      (abridged.run n).1.debugger.pending = (whole.run n).1.debugger.pending ∧
      (abridged.run n).1.output = (whole.run n).1.output ∧
      ∀ c : Call, Command.ofName? (commandWord c.line) = some .set → c.command = .set →
        c.before.attached = s.debugger.attached →
        (overlooked s.debugger.attached c.line = true ↔ c.Refused) := by
  intro whole abridged
  have start : whole.Abridges abridged := ⟨⟨rfl, rfl, rfl⟩, rfl, lines, ending, stays, rfl, rfl⟩
  obtain ⟨left, same⟩ := start.run n
  refine ⟨same, left.machine, left.debugger.pending, left.output, ?_⟩
  intro c word set attached
  rw [← attached, Call.overlooked_set_iff word set]
  constructor
  · exact Call.refused_of_fails
  · intro refused succeeds
    exact refused.not_done (Call.done_of_succeeds succeeds)

/-- Of these lines, which a guest that waits for input reads, two are overlooked. -/
theorem waiting_run_without_overlooked :
    let s : Session := { debugger := { machine := { memory := Memory.blank.fill 0 [20, 5] } } }
    let lines := ["!dump", "!set 6 65536", "!set 7 8", "x"]
    let abridged := lines.filter (!overlooked true ·)
    abridged = ["!set 7 8", "x"] ∧
      (({ s with feed := .ofLines abridged } : Session).run 2).1.machine =
        (({ s with feed := .ofLines lines } : Session).run 2).1.machine := by
  intro s lines abridged
  have stays : ∀ line ∈ lines, Command.ofName? (commandWord line) ≠ some .load := by
    decide +kernel
  obtain ⟨-, machine, -⟩ := run_without_overlooked s s.debugger.host lines .closes stays 2
  exact ⟨by decide +kernel, machine⟩

end Session

end WordMachine
