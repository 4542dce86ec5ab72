import WordMachine.Proofs.CommandOutcome
import WordMachine.Proofs.InstructionTable

/-!
# Kinds of faults

Which fault a step raises is read off the machine by a list of questions, of which the first that
applies decides: where the program counter is, what it points to, and whether the operands of the
instruction there are usable, in an order that is the instruction's own. Only an instruction that
reads can fail for another reason, which is the source of its input.
-/

namespace WordMachine

/-- A unit that is no literal and names no register. -/
def Word.Unusable (u : Word) : Prop := 32776 ≤ u.toNat

instance (u : Word) : Decidable u.Unusable := inferInstanceAs (Decidable (32776 ≤ u.toNat))

/-- The kind of the failure of what has failed. -/
def kindOf? {α : Type} : Except Fault.Cause α → Option Fault.Kind
  | .ok _ => none
  | .error cause => some cause.kind

section Kind

variable {α : Type} {x : Except Fault.Cause α} {cause : Fault.Cause}

@[simp] theorem kindOf?_ok (a : α) : kindOf? (.ok a : Except Fault.Cause α) = none := rfl

@[simp] theorem kindOf?_error : kindOf? (.error cause : Except Fault.Cause α) = some cause.kind :=
  rfl

theorem kindOf?_bind_ok {β : Type} (x : Except Fault.Cause α) (f : α → β) :
    kindOf? (x >>= fun a => .ok (f a)) = kindOf? x := by
  cases x <;> rfl

end Kind

namespace Memory

variable {α : Type} (m : Memory) (u : Word)

theorem kindOf?_operand_bind (f : Word → Except Fault.Cause α) :
    kindOf? (m.operand u >>= f) =
      if u.Unusable then some .malformed else kindOf? (f (m.denoted u)) := by
  rw [operand_eq]
  by_cases unusable : u.Unusable
  · rw [if_pos unusable, if_neg (Nat.not_lt.mpr unusable)]
    rfl
  · rw [if_neg unusable, if_pos (Nat.not_le.mp unusable)]
    rfl

theorem kindOf?_locate :
    kindOf? (locate u.toNat) = if u.Unusable then some .malformed else none := by
  by_cases unusable : u.Unusable
  · have outside : numCells ≤ u.toNat := unusable
    rw [if_pos unusable, locate, dif_neg (by omega)]
    rfl
  · have inside : u.toNat < numCells := Nat.not_le.mp unusable
    rw [if_neg unusable, locate, dif_pos ⟨Int.natCast_nonneg _, by omega⟩]
    rfl

theorem kindOf?_read_bind (f : Word → Except Fault.Cause α) :
    kindOf? (m.read u.toNat >>= f) =
      if u.Unusable then some .malformed else kindOf? (f (m.unitAt u.toNat)) := by
  by_cases unusable : u.Unusable
  · have outside : numCells ≤ u.toNat := unusable
    have missing : m.read u.toNat = .error (.addressOutOfRange u.toNat) := by
      rw [read, locate, dif_neg (by omega)]
      rfl
    rw [if_pos unusable, missing]
    rfl
  · have found : m.read u.toNat = .ok (m.unitAt u.toNat) :=
      read_eq_ok_iff.mpr ⟨Nat.not_le.mp unusable, rfl⟩
    rw [if_neg unusable, found]
    rfl

end Memory

theorem Opcode.ofNat?_eq_none_iff {n : Nat} : ofNat? n = none ↔ 21 < n := by
  simp only [ofNat?, List.getElem?_eq_none_iff]
  rfl

namespace Instruction

/-- The kind of fault that an instruction raises before it does anything. -/
def refusal? (i : Instruction) (m : Memory) (stack : List Int) : Option Fault.Kind :=
  let malformed (p : Prop) [Decidable p] : Option Fault.Kind := if p then some .malformed else none
  match i.opcode with
  | .halt | .ret | .noop => none
  | .pop => if stack = [] then some .stackUnderflow else malformed i.a.Unusable
  | .mod =>
      if i.c.Unusable then some .malformed
      else if m.denoted i.c = 0 then some .arithmetic
      else malformed (i.b.Unusable ∨ i.a.Unusable)
  | .jumpIf => malformed (i.a.Unusable ∨ m.denoted i.a ≠ 0 ∧ i.b.Unusable)
  | .jumpUnless => malformed (i.a.Unusable ∨ m.denoted i.a = 0 ∧ i.b.Unusable)
  | .fetch => malformed (i.b.Unusable ∨ (m.denoted i.b).Unusable ∨ i.a.Unusable)
  | .store => malformed (i.b.Unusable ∨ i.a.Unusable ∨ (m.denoted i.a).Unusable)
  | .push | .jump | .call | .output | .input => malformed i.a.Unusable
  | .set | .not => malformed (i.b.Unusable ∨ i.a.Unusable)
  | .eq | .gt | .add | .mult | .and | .or =>
      malformed (i.b.Unusable ∨ i.c.Unusable ∨ i.a.Unusable)

theorem exists_await_of_input {i : Instruction} {m : Memory} {stack : List Int} {e : Effect}
    (input : i.opcode = .input) (settled : i.effect m stack = .ok e) : ∃ cell, e = .await cell := by
  simp only [effect, input] at settled
  split at settled
  · exact ⟨_, (Except.ok.inj settled).symm⟩
  · cases settled

theorem kindOf?_effect (i : Instruction) (m : Memory) (stack : List Int) :
    kindOf? (i.effect m stack) = i.refusal? m stack := by
  unfold effect refusal?
  cases op : i.opcode with
  | halt | noop => rfl
  | ret => cases stack <;> rfl
  | pop =>
      cases stack with
      | nil => rfl
      | cons top rest =>
          simp only [pure, Except.pure, kindOf?_bind_ok, Memory.kindOf?_locate, reduceCtorEq,
            if_false]
  | push | jump | call | output =>
      simp only [pure, Except.pure, Memory.kindOf?_operand_bind, kindOf?_ok]
  | input =>
      by_cases unusable : i.a.Unusable
      · simp only [if_pos unusable, dif_neg (Nat.not_lt.mpr unusable)]
        rfl
      · simp only [if_neg unusable, dif_pos (Nat.not_le.mp unusable)]
        rfl
  | set | not | fetch | eq | gt | add | mult | and | or | store =>
      simp only [pure, Except.pure, Memory.kindOf?_operand_bind, Memory.kindOf?_read_bind,
        kindOf?_bind_ok, Memory.kindOf?_locate, ite_or]
  | mod =>
      simp only [pure, Except.pure, Memory.kindOf?_operand_bind, apply_ite kindOf?, kindOf?_error,
        kindOf?_bind_ok, Memory.kindOf?_locate, ite_or]
      rfl
  | jumpIf | jumpUnless =>
      simp only [pure, Except.pure, Memory.kindOf?_operand_bind, apply_ite kindOf?, kindOf?_ok,
        ite_or, ite_and]

end Instruction

namespace Machine

/-- The kind of fault that the instruction at the program counter raises before it does
anything. -/
def refusal? (m : Machine) : Option Fault.Kind :=
  if 32768 ≤ m.pc then some .malformed
  else if 21 < (m.memory.unitAt m.pc.toNat).toNat then some .unknownOpcode
  else if 32768 ≤ m.pc + m.instruction.opcode.arity then some .malformed
  else m.instruction.refusal? m.memory m.stack

theorem kindOf?_upcoming {m : Machine} (start : 0 ≤ m.pc) : kindOf? m.upcoming = m.refusal? := by
  have bound : numAddresses = 32768 := rfl
  by_cases outside : 32768 ≤ m.pc
  · have address : m.codeAddress = .error (.pcOutside m.pc) := if_neg (by omega)
    simp only [refusal?, if_pos outside, upcoming, fetched, address]
    rfl
  · have address : m.codeAddress = .ok m.pc.toNat := if_pos (by omega)
    simp only [refusal?, if_neg outside, upcoming, fetched, address]
    cases named : Opcode.ofNat? (m.memory.unitAt m.pc.toNat).toNat with
    | none =>
        have unknown : m.memory.instructionAt m.pc.toNat =
            .error (.unknownOpcode (m.memory.unitAt m.pc.toNat)) := by
          simp only [Memory.instructionAt, named]
        rw [if_pos (Opcode.ofNat?_eq_none_iff.mp named)]
        simp only [bind, Except.bind, unknown]
        rfl
    | some op =>
        have known : ¬21 < (m.memory.unitAt m.pc.toNat).toNat := by
          rw [← Opcode.ofNat?_eq_none_iff, named]
          exact Option.some_ne_none op
        have opcode : m.instruction.opcode = op := by
          simp only [instruction, Nat.add_zero, named, Option.getD_some]
        rw [if_neg known, opcode]
        by_cases past : 32768 ≤ m.pc + op.arity
        · have cut : m.memory.instructionAt m.pc.toNat =
              .error (.operandsPastEnd (m.memory.unitAt m.pc.toNat)) := by
            simp only [Memory.instructionAt, named]
            exact if_pos (by omega)
          rw [if_pos past]
          simp only [bind, Except.bind, cut]
          rfl
        · have found : m.memory.instructionAt m.pc.toNat = .ok m.instruction := by
            simp only [Memory.instructionAt, instruction, named, Nat.add_zero, Option.getD_some]
            exact if_neg (by omega)
          rw [if_neg past, ← Instruction.kindOf?_effect]
          simp only [bind, Except.bind, found]
          exact kindOf?_bind_ok (m.instruction.effect m.memory m.stack) (m.instruction, ·)

end Machine

/-- No command counts as a cycle, not even one that goes on from a snapshot. -/
theorem Call.cycles_after (c : Call) : c.after.machine.cycles = c.before.machine.cycles := by
  rcases c.reaction with
    ⟨host, after, -, -⟩ | ⟨host, cell, value, -, -, -, after⟩ | ⟨host, -, -, after⟩
    | ⟨host, path, s, memory, -, -, -, -, -, after⟩
  all_goals rw [after]

theorem Awaits.cycles_kept {feed : Feed} {d : Debugger} {calls : List Call}
    {result : Feed × Debugger × GuestLine} (h : Awaits feed d calls result) :
    result.2.1.machine.cycles = d.machine.cycles := by
  induction h with
  | closed | failed | interrupted | line => rfl
  | @preempted feed next d host text c reads word asked before preempts =>
      have kept := c.cycles_after
      rw [before] at kept
      exact kept
  | @command feed next d host text c calls result reads word asked before stays rest ih =>
      have kept := c.cycles_after
      rw [before] at kept
      exact ih.trans kept

namespace Session

variable {s : Session}

theorem nextChar_cycles (s : Session) : s.nextChar.1.machine.cycles = s.machine.cycles := by
  cases pending : s.debugger.pending with
  | cons c rest =>
      rw [nextChar_of_pending pending]
      rfl
  | nil =>
      obtain ⟨host, flushed⟩ := s.flushTrace_debugger
      have kept := (awaits s.feed s.flushTrace.debugger).cycles_kept
      rw [nextChar_of_waiting pending, deliver_machine, kept, flushed]
      rfl

theorem perform_cycles (s : Session) (next : Int) (e : Effect) :
    (s.perform next e).1.machine.cycles = s.machine.cycles := by
  cases e with
  | emit unit =>
      rw [perform_emit]
      split <;> rfl
  | await cell =>
      have kept := s.nextChar_cycles
      rw [perform_await]
      rcases asked : s.nextChar with ⟨t, delivery⟩
      rw [asked] at kept
      cases delivery <;> exact kept
  | halt | leave =>
      have kept (d : Debugger) : d.halt.machine.cycles = d.machine.cycles := by
        rw [Debugger.halt_machine]
      exact kept _
  | _ => rfl

/-- A step counts as one cycle, unless there is no address to fetch from. -/
theorem step_cycles (running : s.machine.running = true) (start : 0 ≤ s.machine.pc) :
    s.step.1.machine.cycles = s.machine.cycles + if 32768 ≤ s.machine.pc then 0 else 1 := by
  have bound : numAddresses = 32768 := rfl
  rcases upcoming : s.machine.upcoming with cause | ⟨i, e⟩
  · obtain ⟨t, -, step, cycles⟩ := step_of_refused_counted running upcoming
    rw [step]
    refine Eq.trans cycles ?_
    by_cases outside : 32768 ≤ s.machine.pc
    · rw [if_pos outside, if_neg (by omega)]
    · rw [if_neg outside, if_pos (by omega)]
  · have inside : ¬32768 ≤ s.machine.pc := by
      have fetched := (Machine.upcoming_eq_ok_iff.mp upcoming).1
      obtain ⟨pc, address, -⟩ := except_bind_eq_ok.mp fetched
      have at_pc := Machine.codeAddress_eq_ok_iff.mp address
      omega
    rw [step_of_upcoming running upcoming, perform_cycles, poised_machine, if_neg inside]

/-- The guest asks for a character when there is no line left for it: the source of its input comes
to its end, or fails, before a line for the guest or a command that preempts. -/
def Starves (s : Session) (k : Fault.Kind) : Prop :=
  s.debugger.pending = [] ∧ ∃ (calls : List Call) (next : Feed) (d : Debugger) (cause : Fault.Cause),
    Awaits s.feed s.flushTrace.debugger calls (next, d, .failed cause) ∧ cause.kind = k

theorem starves_iff {k : Fault.Kind} :
    s.Starves k ↔ ∃ t cause, s.nextChar = (t, .failed cause) ∧ cause.kind = k := by
  constructor
  · rintro ⟨pending, calls, next, d, cause, found, kind⟩
    rw [nextChar_of_waiting pending, found.awaitLine_eq]
    exact ⟨_, cause, rfl, kind⟩
  · rintro ⟨t, cause, asked, kind⟩
    cases pending : s.debugger.pending with
    | cons c rest =>
        rw [nextChar_of_pending pending] at asked
        cases congrArg Prod.snd asked
    | nil =>
        have found := awaits s.feed s.flushTrace.debugger
        rw [nextChar_of_waiting pending] at asked
        rcases line : awaitLine s.feed s.flushTrace.debugger with ⟨next, d, outcome⟩
        rw [line] at asked found
        cases outcome with
        | line | preempted | interrupted => cases congrArg Prod.snd asked
        | failed cause' =>
            obtain rfl : cause' = cause := Delivery.failed.inj (congrArg Prod.snd asked)
            exact ⟨pending, _, next, d, cause', found, kind⟩

/-- The kind of fault that a step raises. -/
def FaultsAs (s : Session) (k : Fault.Kind) : Prop :=
  s.machine.refusal? = some k ∨
    s.machine.refusal? = none ∧ s.machine.instruction.opcode = .input ∧
      (s.poised s.machine.instruction).Starves k

/-- An effect that waits for nothing is carried out, if the output takes every character. -/
theorem perform_completes (accepts : ∀ unit, s.output.accepts unit = true) (next : Int) {e : Effect}
    (busy : ∀ cell, e ≠ .await cell) : ∃ t, s.perform next e = (t, none) := by
  cases e with
  | emit unit =>
      rw [perform_emit, if_pos (accepts unit)]
      exact ⟨_, rfl⟩
  | await cell => exact absurd rfl (busy cell)
  | _ => exact ⟨_, rfl⟩

/-- What becomes of a request for a character becomes of the instruction that makes it. -/
theorem perform_await_cases (next : Int) (cell : Cell) :
    (∃ t, s.perform next (.await cell) = (t, none)) ∧ (∀ k, ¬s.Starves k) ∨
    (∃ t, s.perform next (.await cell) = (t, some .interrupted) ∧ s.nextChar = (t, .interrupted)) ∧
      (∀ k, ¬s.Starves k) ∨
    ∃ t f, s.perform next (.await cell) = (t, some (.fault f)) ∧ ∀ k, s.Starves k ↔ f.kind = k := by
  simp only [starves_iff]
  rw [perform_await]
  rcases asked : s.nextChar with ⟨t, delivery⟩
  cases delivery with
  | char unit => exact .inl ⟨⟨_, rfl⟩, by simp⟩
  | preempted => exact .inl ⟨⟨_, rfl⟩, by simp⟩
  | interrupted => exact .inr (.inl ⟨⟨t, rfl, rfl⟩, by simp⟩)
  | failed cause => exact .inr (.inr ⟨_, _, rfl, by simp [Fault.kind]⟩)

/-- The three ways in which a step of a running machine ends. -/
theorem step_ends (running : s.machine.running = true) (start : 0 ≤ s.machine.pc)
    (accepts : ∀ unit, s.output.accepts unit = true) :
    (∃ t, s.step = (t, none)) ∧ (∀ k, ¬s.FaultsAs k) ∨
    (∃ t u : Session, s.step = (t, some .interrupted) ∧ u.nextChar = (t, .interrupted) ∧
      s.machine.instruction.opcode = .input) ∧ (∀ k, ¬s.FaultsAs k) ∨
    ∃ t f, s.step = (t, some (.fault f)) ∧ ∀ k, s.FaultsAs k ↔ f.kind = k := by
  have kind := Machine.kindOf?_upcoming start
  rcases upcoming : s.machine.upcoming with cause | ⟨i, e⟩
  · obtain ⟨t, -, step⟩ := step_of_refused running upcoming
    rw [upcoming, kindOf?_error] at kind
    refine .inr (.inr ⟨_, _, step, ?_⟩)
    intro k
    simp only [FaultsAs, ← kind, Option.some.injEq, reduceCtorEq, false_and, or_false]
    rfl
  · obtain ⟨fetched, settled⟩ := Machine.upcoming_eq_ok_iff.mp upcoming
    obtain rfl := Machine.fetched_eq_ok fetched
    rw [upcoming, kindOf?_ok] at kind
    rw [step_of_upcoming running upcoming]
    by_cases input : s.machine.instruction.opcode = .input
    · obtain ⟨cell, rfl⟩ := Instruction.exists_await_of_input input settled
      have same (k : Fault.Kind) :
          s.FaultsAs k ↔ (s.poised s.machine.instruction).Starves k := by
        simp only [FaultsAs, ← kind, input, reduceCtorEq, false_or, true_and]
      simp only [same]
      rcases perform_await_cases (s := s.poised s.machine.instruction)
          (s.machine.pc + s.machine.instruction.opcode.size) cell with
        completed | ⟨⟨t, stopped, asked⟩, fed⟩ | raised
      · exact .inl completed
      · exact .inr (.inl ⟨⟨t, _, stopped, asked, input⟩, fed⟩)
      · exact .inr (.inr raised)
    · have busy (cell : Cell) : e ≠ .await cell := by
        rintro rfl
        exact input (Instruction.effect_eq_await_iff.mp settled).1
      have output := (s.near_poised s.machine.instruction).output
      refine .inl ⟨perform_completes (by rw [output]; exact accepts) _ busy, ?_⟩
      intro k faults
      simp only [FaultsAs, ← kind, input, reduceCtorEq, false_and, and_false, or_self] at faults

/-- A step of a running machine raises a fault exactly as the list of questions says, and otherwise
is completed, unless the source of input interrupts it. It counts as one cycle wherever there is an
address to fetch from; and if the instruction is refused, nothing is read. -/
theorem step_faults_iff (reached : s.Reachable) (running : s.machine.running = true)
    (accepts : ∀ unit, s.output.accepts unit = true) :
    (∀ k, (∃ t f, s.step = (t, some (.fault f)) ∧ f.kind = k) ↔ s.FaultsAs k) ∧
    ((∀ k, ¬s.FaultsAs k) → (∃ t, s.step = (t, none)) ∨
      ∃ (t : Session) (last : Feed) (host : Host), s.step = (t, some .interrupted) ∧
        s.machine.instruction.opcode = .input ∧
        last.nextLine host = (.interrupted, t.feed, t.debugger.host)) ∧
    s.step.1.machine.cycles = s.machine.cycles + (if 32768 ≤ s.machine.pc then 0 else 1) ∧
    (s.machine.refusal? ≠ none → s.SameAside s.step.1 ∧ s.step.1.output = s.output) := by
  have start : 0 ≤ s.machine.pc := reached.sound.pc.1
  have ends := step_ends running start accepts
  refine ⟨?_, ?_, step_cycles running start, ?_⟩
  · intro k
    rcases ends with ⟨⟨t, step⟩, sound⟩ | ⟨⟨t, u, step, -⟩, sound⟩ | ⟨t, f, step, kind⟩
    · simp [step, sound k]
    · simp [step, sound k]
    · simp [step, kind k]
  · intro sound
    rcases ends with ⟨completed, -⟩ | ⟨⟨t, u, step, asked, input⟩, -⟩ | ⟨t, f, step, kind⟩
    · exact .inl completed
    · obtain ⟨last, host, reads⟩ := (nextChar_ends asked).2 rfl
      exact .inr ⟨t, last, host, step, input, reads⟩
    · exact absurd ((kind f.kind).mpr rfl) (sound f.kind)
  · intro refused
    rw [← Machine.kindOf?_upcoming start] at refused
    rcases upcoming : s.machine.upcoming with cause | done
    · obtain ⟨t, near, step⟩ := step_of_refused running upcoming
      rw [step]
      exact ⟨near.aside.trans ⟨rfl, rfl, rfl, rfl⟩, near.output⟩
    · rw [upcoming, kindOf?_ok] at refused
      exact absurd rfl refused

/-- A session whose guest divides by zero, with two operands that are unusable as well. -/
def dividing : Session where
  debugger := { machine := { memory := Memory.blank.fill 0 [11, 40000, 40000, 0] } }

theorem dividing_step_faults :
    ∃ t f, dividing.step = (t, some (.fault f)) ∧ f.kind = .arithmetic ∧ t.machine.cycles = 1 := by
  have blank : Reachable {} := .fresh rfl rfl
  have reached : Reachable dividing := (blank.loaded [11, 40000, 40000, 0] rfl).elsewhere rfl rfl
  obtain ⟨kinds, -, cycles, -⟩ := step_faults_iff reached rfl fun _ => rfl
  have refused : dividing.machine.refusal? = some .arithmetic := by decide +kernel
  obtain ⟨t, f, step, kind⟩ := (kinds .arithmetic).mpr (.inl refused)
  rw [step] at cycles
  exact ⟨t, f, step, kind, cycles⟩

end Session

end WordMachine
