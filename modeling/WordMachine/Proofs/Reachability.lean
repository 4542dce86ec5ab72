import WordMachine.Proofs.Stepping

/-!
# Reachable sessions

The sessions that a new machine can come to, and what holds in all of them: the program counter and
the entries of the stack are numbers of sixteen bits, a machine with a fault does not run, and a
line that the guest has begun fits into cells and ends in a line feed.
-/

namespace WordMachine

/-- An integer that sixteen bits hold. -/
def FitsWord (v : Int) : Prop := 0 ≤ v ∧ v < 65536

theorem fitsWord_toNat (w : Word) : FitsWord w.toNat := by
  have := w.toNat_lt
  unfold FitsWord
  omega

theorem FitsWord.mod_eq {v : Int} (h : FitsWord v) : v % 65536 = v := by
  unfold FitsWord at h
  omega

theorem fitsWord_mod (v : Int) : FitsWord (v % 65536) := by
  unfold FitsWord
  omega

/-- A snapshot whose program counter and stack are numbers of sixteen bits. -/
structure Snapshot.Sound (s : Snapshot) : Prop where
  pc : FitsWord s.pc
  stack : ∀ v ∈ s.stack, FitsWord v

namespace Snapshot

theorem sound_capture (pc : Int) (stack memory : List Int) : (capture pc stack memory).Sound where
  pc := fitsWord_mod pc
  stack := by
    intro v mem
    obtain ⟨entry, -, rfl⟩ := List.mem_map.mp mem
    exact fitsWord_mod entry

theorem sound_of_decode {bs : Bytes} {s : Snapshot} (decoded : decode bs = .ok s) : s.Sound := by
  unfold decode at decoded
  split at decoded
  · next p₀ p₁ d₀ d₁ d₂ d₃ body =>
      dsimp only at decoded
      split at decoded
      · obtain rfl := Except.ok.inj decoded
        refine ⟨fitsWord_toNat _, ?_⟩
        intro v mem
        obtain ⟨w, -, rfl⟩ := List.mem_map.mp (List.mem_of_mem_take mem)
        exact fitsWord_toNat w
      · cases decoded
  · cases decoded

end Snapshot

theorem Host.readSnapshot_eq_ok_iff {h : Host} {path : Path} {s : Snapshot} :
    (h.readSnapshot path).2 = .ok s ↔
      ∃ content, h.files.readFile path = .ok content ∧ Snapshot.decode content = .ok s := by
  unfold readSnapshot
  split
  · next read => simp [read]
  · next read => simp [read]
  · next content read =>
      split
      · next e decoded => simp [read, decoded]
      · next s' decoded => simp [read, decoded]

/-- What holds of a debugger at all times. -/
structure Debugger.Sound (d : Debugger) : Prop where
  pc : FitsWord d.machine.pc
  stack : ∀ v ∈ d.machine.stack, FitsWord v
  stopped : d.machine.fault.isSome = true → d.machine.running = false
  fits : ∀ c ∈ d.pending, c.toNat ≤ 0xFFFF
  ended : d.pending ≠ [] → d.pending.getLast? = some '\n'

namespace Debugger

variable {d d' : Debugger}

theorem Sound.congr (h : d.Sound) (machine : d'.machine = d.machine)
    (pending : d'.pending = d.pending) : d'.Sound where
  pc := machine ▸ h.pc
  stack := machine ▸ h.stack
  stopped := machine ▸ h.stopped
  fits := pending ▸ h.fits
  ended := pending ▸ h.ended

/-- Counting cycles, storing to memory and stopping keep a debugger sound. -/
theorem Sound.of_frame (h : d.Sound) (pc : d'.machine.pc = d.machine.pc)
    (stack : d'.machine.stack = d.machine.stack) (pending : d'.pending = d.pending)
    (stopped : d'.machine.fault.isSome = true → d'.machine.running = false) : d'.Sound where
  pc := pc ▸ h.pc
  stack := stack ▸ h.stack
  stopped := stopped
  fits := pending ▸ h.fits
  ended := pending ▸ h.ended

/-- A sound snapshot makes a sound debugger, whatever it replaces. -/
theorem sound_of_restored {s : Snapshot} (sound : s.Sound) (pc : d'.machine.pc = s.pc)
    (stack : d'.machine.stack = s.stack.reverse) (fault : d'.machine.fault = none)
    (pending : d'.pending = []) : d'.Sound where
  pc := pc ▸ sound.pc
  stack := by
    intro v mem
    rw [stack, List.mem_reverse] at mem
    exact sound.stack v mem
  stopped := by simp [fault]
  fits := by simp [pending]
  ended := by simp [pending]

theorem halt_machine (d : Debugger) :
    d.halt.machine = { d.machine with running := false } := by
  unfold halt logHalt
  split <;> rfl

theorem halt_pending (d : Debugger) : d.halt.pending = d.pending := by
  unfold halt logHalt
  split <;> rfl

theorem halt_setting (d : Debugger) : d.halt.setting = d.setting := by
  unfold halt logHalt
  split <;> rfl

theorem halt_files (d : Debugger) : d.halt.host.files = d.host.files := by
  unfold halt logHalt
  split <;> rfl

theorem Sound.halt (h : d.Sound) : d.halt.Sound :=
  h.of_frame (by rw [halt_machine]) (by rw [halt_machine]) d.halt_pending
    fun _ => by rw [halt_machine]

theorem Sound.carryOut (h : d.Sound) (c : Command) (argv : List String) :
    (c.carryOut d argv).1.Sound := by
  rcases c.deed d argv with
    ⟨host, debugger, -, -, -⟩ | ⟨host, cell, value, -, -, -, ran⟩ | ⟨host, -, ran⟩
    | ⟨host, path, s, memory, -, -, read, -, ran⟩
  · rw [debugger]
    exact h.congr rfl rfl
  · rw [ran]
    exact h.of_frame rfl rfl rfl h.stopped
  · rw [ran]
    exact h.of_frame rfl rfl rfl fun _ => rfl
  · rw [ran]
    obtain ⟨content, -, decoded⟩ := Host.readSnapshot_eq_ok_iff.mp read
    exact sound_of_restored (Snapshot.sound_of_decode decoded) rfl rfl rfl rfl

theorem Sound.run (h : d.Sound) (c : Command) (argv : List String) : (c.run d argv).1.Sound := by
  obtain ⟨preempted, ran⟩ := c.run_fst d argv
  rw [ran]
  exact (h.carryOut c argv).congr rfl rfl

end Debugger

theorem Call.sound_after {c : Call} (h : c.before.Sound) : c.after.Sound := by
  unfold after Command.dispatch
  split
  · exact h.congr rfl rfl
  · next words split =>
      have ran := h.run c.command (words.drop 1)
      split
      · next d outcome eq =>
          rw [eq] at ran
          exact ran.congr rfl rfl
      · next d e eq =>
          rw [eq] at ran
          exact ran.congr rfl rfl

theorem Awaits.sound {feed : Feed} {d : Debugger} {calls : List Call}
    {result : Feed × Debugger × GuestLine} (h : Awaits feed d calls result) (sound : d.Sound) :
    result.2.1.Sound := by
  induction h with
  | closed | failed | interrupted | line => exact sound.congr rfl rfl
  | @preempted feed next d host text c reads word asked before preempts =>
      have start : c.before.Sound := sound.congr (by rw [before]) (by rw [before])
      exact (Call.sound_after start).congr rfl rfl
  | @command feed next d host text c calls result reads word asked before stays rest ih =>
      have start : c.before.Sound := sound.congr (by rw [before]) (by rw [before])
      exact ih (Call.sound_after start)

namespace Session

/-- What holds of a session at all times. -/
def Sound (s : Session) : Prop := s.debugger.Sound

theorem deliver_machine (s : Session) (result : Feed × Debugger × GuestLine) :
    (s.deliver result).1.machine = result.2.1.machine := by
  obtain ⟨feed, d, line⟩ := result
  cases line with
  | preempted | failed cause | interrupted => rfl
  | line text =>
      unfold deliver
      dsimp only
      split <;> rfl

theorem sound_deliver {s : Session} {result : Feed × Debugger × GuestLine}
    (h : result.2.1.Sound) : (s.deliver result).1.Sound := by
  obtain ⟨feed, d, line⟩ := result
  cases line with
  | preempted | failed cause | interrupted => exact h
  | line text =>
      let pending := fitLine text.toList ++ ['\n']
      have line : (s.deliver (feed, d, .line text)).1.debugger.pending = pending.tail := rfl
      have machine : (s.deliver (feed, d, .line text)).1.debugger.machine = d.machine :=
        s.deliver_machine (feed, d, .line text)
      refine ⟨machine ▸ h.pc, machine ▸ h.stack, machine ▸ h.stopped, ?_, ?_⟩
      · intro c mem
        rw [line] at mem
        rcases List.mem_append.mp (List.mem_of_mem_tail mem) with fitted | last
        · exact toNat_le_of_mem_fitLine fitted
        · obtain rfl := List.mem_singleton.mp last
          decide
      · intro unread
        rw [line] at unread ⊢
        cases fitted : fitLine text.toList with
        | nil => simp [pending, fitted] at unread
        | cons c cs => simp [pending, fitted]

theorem Sound.nextChar {s : Session} (h : s.Sound) : s.nextChar.1.Sound := by
  cases pending : s.debugger.pending with
  | nil =>
      rw [nextChar_of_waiting pending]
      obtain ⟨host, flushed⟩ := s.flushTrace_debugger
      have start : s.flushTrace.debugger.Sound :=
        Debugger.Sound.congr h (by rw [flushed]) (by rw [flushed])
      exact sound_deliver ((awaits s.feed s.flushTrace.debugger).sound start)
  | cons c rest =>
      rw [nextChar_of_pending pending]
      refine ⟨h.pc, h.stack, h.stopped, ?_, ?_⟩
      · intro d mem
        exact h.fits d (by rw [pending]; exact List.mem_cons_of_mem c mem)
      · intro unread
        have last : (c :: rest).getLast? = some '\n' :=
          pending ▸ h.ended (by rw [pending]; exact List.cons_ne_nil c rest)
        have unread : rest ≠ [] := unread
        rw [List.getLast?_cons_of_ne_nil unread] at last
        exact last

theorem Sound.apply {s : Session} (h : s.Sound) {next : Int} (fits : FitsWord next)
    {effect : Effect} (returns : ∀ target, effect = .ret target → FitsWord target) :
    (s.mapMachine (·.apply next effect)).Sound := by
  refine ⟨?_, ?_, ?_, h.fits, h.ended⟩
  · cases effect with
    | jump target => exact fitsWord_toNat target
    | call target => exact fitsWord_toNat target
    | ret target => exact returns target rfl
    | await cell => exact h.pc
    | _ => exact fits
  · intro v mem
    cases effect with
    | push value =>
        rcases List.mem_cons.mp mem with rfl | below
        · exact fitsWord_toNat value
        · exact h.stack v below
    | call target =>
        rcases List.mem_cons.mp mem with rfl | below
        · exact fits
        · exact h.stack v below
    | pop cell value => exact h.stack v (List.mem_of_mem_tail mem)
    | ret target => exact h.stack v (List.mem_of_mem_tail mem)
    | _ => exact h.stack v mem
  · cases effect with
    | halt | leave => exact fun _ => rfl
    | _ => exact h.stopped

theorem Sound.fail {s : Session} (h : s.Sound) (cause : Fault.Cause) : (s.fail cause).1.Sound :=
  Debugger.Sound.of_frame h rfl rfl rfl fun _ => rfl

theorem Sound.near {s t : Session} (h : s.Sound) (near : s.Near t) : t.Sound := by
  have machine : t.debugger.machine = { s.debugger.machine with cycles := t.machine.cycles } :=
    near.machine
  refine Debugger.Sound.of_frame h (by rw [machine]) (by rw [machine]) near.pending ?_
  rw [machine]
  exact h.stopped

theorem settled_of_upcoming {m : Machine} {i : Instruction} {effect : Effect}
    (upcoming : m.upcoming = .ok (i, effect)) : i.effect m.memory m.stack = .ok effect :=
  (Machine.upcoming_eq_ok_iff.mp upcoming).2

/-- An instruction ends inside the address space. -/
theorem fitsWord_next {m : Machine} {i : Instruction} {effect : Effect}
    (upcoming : m.upcoming = .ok (i, effect)) : FitsWord (m.pc + i.opcode.size) := by
  obtain ⟨pc, address, found⟩ := except_bind_eq_ok.mp (Machine.upcoming_eq_ok_iff.mp upcoming).1
  have at_pc := Machine.codeAddress_eq_ok_iff.mp address
  unfold Memory.instructionAt at found
  dsimp only at found
  split at found
  · cases found
  · split at found
    · cases found
    · obtain rfl := Except.ok.inj found
      have bound : numAddresses = 32768 := rfl
      simp only [FitsWord, Opcode.size]
      omega

theorem Sound.perform {s : Session} (h : s.Sound) {next : Int} (fits : FitsWord next)
    {effect : Effect} (returns : ∀ target, effect = .ret target → FitsWord target) :
    (s.perform next effect).1.Sound := by
  have applied := h.apply fits returns
  cases effect with
  | emit unit =>
      rw [perform_emit]
      split
      · exact applied
      · exact h
  | await cell =>
      have asked := h.nextChar
      rcases eq : s.nextChar with ⟨t, delivery⟩
      rw [eq] at asked
      rw [perform_await, eq]
      cases delivery with
      | char unit => exact Sound.apply asked fits (by intro _ store; cases store)
      | failed cause => exact Sound.fail asked cause
      | preempted | interrupted => exact asked
  | halt =>
      let d : Debugger := { s.debugger with machine := { s.debugger.machine with pc := next } }
      exact Debugger.Sound.congr applied d.halt_machine d.halt_pending
  | leave =>
      let d : Debugger := { s.debugger with machine := { s.debugger.machine with pc := next } }
      let d := d.log .debug .machine "ret with empty stack"
      exact Debugger.Sound.congr applied d.halt_machine d.halt_pending
  | _ => exact applied

theorem Sound.step {s : Session} (h : s.Sound) : s.step.1.Sound := by
  cases running : s.machine.running with
  | false =>
      have same : s.step = (s, none) := by simp [Session.step, running]
      rw [same]
      exact h
  | true =>
      rcases upcoming : s.machine.upcoming with cause | ⟨i, effect⟩
      · obtain ⟨t, near, step⟩ := step_of_refused running upcoming
        rw [step]
        exact (h.near near).fail cause
      · rw [step_of_upcoming running upcoming]
        apply (h.near (s.near_poised i)).perform (fitsWord_next upcoming)
        rintro target rfl
        obtain ⟨rest, stack⟩ := Instruction.stack_of_effect_eq_ret (settled_of_upcoming upcoming)
        exact h.stack target (by rw [show s.debugger.machine.stack = _ from stack]; simp)

/-- The sessions that a new machine can come to: by steps, by what commands do, whether they are
read from the input or run directly, by programs, numbers and snapshots put in, and by
requests for characters. What surrounds the machine may change at any time. -/
inductive Reachable : Session → Prop where
  | fresh {s : Session} (machine : s.machine = {}) (waiting : s.debugger.pending = []) : Reachable s
  | elsewhere {s t : Session} (h : Reachable s) (machine : t.machine = s.machine)
      (pending : t.debugger.pending = s.debugger.pending) : Reachable t
  | loaded {s : Session} {d : Debugger} (h : Reachable s) (words : List Int)
      (fits : s.debugger.loadImage words = .ok d) : Reachable { s with debugger := d }
  | stored {s : Session} {memory : Memory} (h : Reachable s) (address value : Int)
      (inside : s.machine.memory.write address value = .ok memory) :
      Reachable (s.mapMachine fun m => { m with memory })
  | restored {s : Session} {d : Debugger} {saved : Snapshot} (h : Reachable s)
      (masked : (∃ pc stack memory, saved = .capture pc stack memory) ∨
        ∃ bs, Snapshot.decode bs = .ok saved)
      (whole : s.debugger.restore saved = .ok d) : Reachable { s with debugger := d }
  | command {s : Session} (h : Reachable s) (c : Command) (argv : List String) :
      Reachable { s with debugger := (c.run s.debugger argv).1 }
  | halted {s : Session} (h : Reachable s) : Reachable (s.mapDebugger Debugger.halt)
  | reset {s : Session} (h : Reachable s) :
      Reachable (s.mapDebugger fun d => { d with pending := [] })
  | asked {s : Session} (h : Reachable s) : Reachable s.nextChar.1
  | stepped {s : Session} (h : Reachable s) : Reachable s.step.1

theorem Reachable.run {s : Session} (h : Reachable s) (n : Nat) : Reachable (s.run n).1 := by
  induction n generalizing s with
  | zero => exact h
  | succ n ih =>
      cases running : s.machine.running with
      | false => rw [run_of_stopped running]; exact h
      | true =>
          have next := h.stepped
          rcases step : s.step with ⟨t, _ | failure⟩
          · rw [step] at next
            rw [run_succ running step]
            exact ih next
          · rw [step] at next
            rw [run_succ_of_failure running step]
            exact next

theorem Reachable.sound {s : Session} (h : Reachable s) : s.Sound := by
  induction h with
  | @fresh s machine waiting =>
      have blank : s.debugger.machine = {} := machine
      refine ⟨?_, ?_, ?_, by simp [waiting], by simp [waiting]⟩
      · rw [blank]
        exact ⟨by decide, by decide⟩
      · simp [blank]
      · simp [blank]
  | elsewhere _ machine pending ih => exact Debugger.Sound.congr ih machine pending
  | @loaded s d _ words fits ih =>
      simp only [Debugger.loadImage, Machine.loadImage] at fits
      cases memory : s.debugger.machine.memory.load words 0 with
      | error e => simp [memory, Except.map] at fits
      | ok memory' =>
          simp only [memory, Except.map, Except.ok.injEq] at fits
          subst fits
          exact Debugger.Sound.of_frame ih rfl rfl rfl ih.stopped
  | stored _ address value inside ih => exact Debugger.Sound.of_frame ih rfl rfl rfl ih.stopped
  | @restored s d saved _ masked whole ih =>
      have sound : saved.Sound := by
        rcases masked with ⟨pc, stack, memory, rfl⟩ | ⟨bs, decoded⟩
        · exact Snapshot.sound_capture pc stack memory
        · exact Snapshot.sound_of_decode decoded
      obtain ⟨memory, journal, -, rfl⟩ := Debugger.restore_eq_ok whole
      exact Debugger.sound_of_restored sound rfl rfl rfl rfl
  | command _ c argv ih => exact Debugger.Sound.run ih c argv
  | halted _ ih => exact Debugger.Sound.halt ih
  | reset _ ih => exact ⟨ih.pc, ih.stack, ih.stopped, by simp [mapDebugger], by simp [mapDebugger]⟩
  | asked _ ih => exact ih.nextChar
  | stepped _ ih => exact ih.step

end Session

end WordMachine
