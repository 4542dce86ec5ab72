import WordMachine.Proofs.Escapes
import WordMachine.Proofs.FaultKinds
import WordMachine.Proofs.RemainingInput

/-!
# Runs one after the other

A run of some steps and then of some more comes to where a run of all of them comes to. The count
of a run that raises nothing is the growth of the count of cycles; a bound beyond the end of a run
changes nothing, and one below it is used up. A machine that stands still goes on standing still
until it is restored.
-/

namespace WordMachine

/-- The command goes on from a snapshot. -/
def Call.Reloads (c : Call) : Prop := c.command = .load ∧ c.Succeeds

instance (c : Call) : Decidable c.Reloads :=
  inferInstanceAs (Decidable (c.command = .load ∧ c.Succeeds))

/-- One machine after some time without a restore: it is where it was, or stopped there. -/
structure Machine.Stays (m m' : Machine) : Prop where
  pc : m'.pc = m.pc
  stack : m'.stack = m.stack
  stopped : m.running = false → m'.running = false

namespace Machine

theorem Stays.refl (m : Machine) : m.Stays m := ⟨rfl, rfl, id⟩

theorem Stays.trans {m₁ m₂ m₃ : Machine} (first : m₁.Stays m₂) (second : m₂.Stays m₃) :
    m₁.Stays m₃ where
  pc := second.pc.trans first.pc
  stack := second.stack.trans first.stack
  stopped := second.stopped ∘ first.stopped

end Machine

theorem Call.stays {c : Call} (stays : ¬c.Reloads) : c.before.machine.Stays c.after.machine := by
  cases c.reaction with
  | quiet host after => rw [after]; exact .refl _
  | stored host cell value poke command succeeds after => rw [after]; exact ⟨rfl, rfl, id⟩
  | halted host command succeeds after => rw [after]; exact ⟨rfl, rfl, fun _ => rfl⟩
  | restored host path s memory file read cells command succeeds =>
      exact absurd ⟨command, succeeds⟩ stays

/-- What no command on the way spoils still holds of the machine when the search is over. -/
theorem Awaits.keeps {motive : Machine → Prop} {feed : Feed} {d : Debugger} {calls : List Call}
    {result : Feed × Debugger × GuestLine} (h : Awaits feed d calls result)
    (each : ∀ c ∈ calls, motive c.before.machine → motive c.after.machine)
    (start : motive d.machine) : motive result.2.1.machine := by
  induction h with
  | closed | failed | interrupted | line => exact start
  | @preempted feed next d host text c reads word asked before preempts =>
      apply each c List.mem_cons_self
      rw [before]
      exact start
  | @command feed next d host text c calls result reads word asked before stays rest ih =>
      apply ih
      · intro c' mem
        exact each c' (List.mem_cons_of_mem c mem)
      · apply each c List.mem_cons_self
        rw [before]
        exact start

namespace Session

variable {s t u : Session} {n m k l : Nat} {e : Option Failure}

theorem nextChar_keeps {motive : Machine → Prop}
    (each : ∀ c ∈ s.calls, motive c.before.machine → motive c.after.machine)
    (start : motive s.machine) : motive s.nextChar.1.machine := by
  cases pending : s.debugger.pending with
  | cons c rest =>
      rw [nextChar_of_pending pending]
      exact start
  | nil =>
      obtain ⟨host, flushed⟩ := s.flushTrace_debugger
      rw [calls_of_waiting pending] at each
      rw [nextChar_of_waiting pending, deliver_machine]
      apply (awaits s.feed s.flushTrace.debugger).keeps each
      rw [flushed]
      exact start

theorem nextChar_stays (stays : ∀ c ∈ s.calls, ¬c.Reloads) :
    s.machine.Stays s.nextChar.1.machine := by
  apply nextChar_keeps
  · intro c mem kept
    exact kept.trans (Call.stays (stays c mem))
  · exact .refl s.machine

theorem deliver_output (s : Session) (result : Feed × Debugger × GuestLine) :
    (s.deliver result).1.output = s.output := by
  obtain ⟨feed, d, line⟩ := result
  cases line <;> rfl

theorem nextChar_output (s : Session) : s.nextChar.1.output = s.output := by
  cases pending : s.debugger.pending with
  | cons c rest => rw [nextChar_of_pending pending]; rfl
  | nil => rw [nextChar_of_waiting pending, deliver_output, flushTrace_output]

theorem perform_encodes (s : Session) (next : Int) (effect : Effect) :
    (s.perform next effect).1.output.encodes = s.output.encodes := by
  cases effect with
  | emit unit =>
      rw [perform_emit]
      split <;> rfl
  | await cell =>
      have kept := s.nextChar_output
      rw [perform_await]
      rcases asked : s.nextChar with ⟨t, delivery⟩
      rw [asked] at kept
      cases delivery <;> exact congrArg Output.encodes kept
  | _ => rfl

/-- Whether the output takes encoded text only is settled at the start. -/
theorem step_encodes (s : Session) : s.step.1.output.encodes = s.output.encodes := by
  refine s.step_elim ?_ ?_ ?_
  · intro stopped
    rfl
  · intro t cause running refused near
    exact congrArg Output.encodes near.output
  · intro i effect running upcoming
    rw [perform_encodes, (s.near_poised i).output]

/-- A run told step by step: where it comes to, its count, and what it is left by. -/
inductive Runs : Session → Nat → Session → Nat → Option Failure → Prop where
  | spent {s : Session} : Runs s 0 s 0 none
  | stopped {s : Session} {n : Nat} (stopped : s.machine.running = false) : Runs s n s 0 none
  | left {s t : Session} {n : Nat} {failure : Failure} (running : s.machine.running = true)
      (step : s.step = (t, some failure)) : Runs s (n + 1) t 0 (some failure)
  | step {s t u : Session} {n k : Nat} {e : Option Failure} (running : s.machine.running = true)
      (step : s.step = (t, none)) (rest : Runs t n u k e) : Runs s (n + 1) u (k + 1) e

theorem runs (s : Session) (n : Nat) : Runs s n (s.run n).1 (s.run n).2.1 (s.run n).2.2 := by
  induction n generalizing s with
  | zero => exact .spent
  | succ n ih =>
      cases running : s.machine.running with
      | false =>
          rw [run_of_stopped running]
          exact .stopped running
      | true =>
          rcases step : s.step with ⟨t, _ | failure⟩
          · rw [run_succ running step]
            exact .step running step (ih t)
          · rw [run_succ_of_failure running step]
            exact .left running step

theorem runs_of_run (ran : s.run n = (t, k, e)) : Runs s n t k e := by
  have told := s.runs n
  rw [ran] at told
  exact told

namespace Runs

theorem run_eq (h : Runs s n t k e) : s.run n = (t, k, e) := by
  induction h with
  | spent => rfl
  | stopped stopped => exact run_of_stopped stopped _
  | left running step => exact run_succ_of_failure running step _
  | step running step rest ih => rw [run_succ running step, ih]

/-- A run that raises nothing goes on where it stopped. -/
theorem add {raised : Option Failure} (first : Runs s n t k raised) (completed : raised = none)
    (second : Runs t m u l e) : Runs s (n + m) u (k + l) e := by
  induction first with
  | spent =>
      rw [Nat.zero_add, Nat.zero_add]
      exact second
  | stopped stopped =>
      have still := (run_of_stopped stopped m).symm.trans second.run_eq
      cases still
      exact .stopped stopped
  | left => cases completed
  | step running step rest ih =>
      rw [Nat.add_right_comm, Nat.add_right_comm _ 1]
      exact .step running step (ih completed second)

/-- A run that is left is left at the same place however much longer it might be. -/
theorem left_add {raised : Option Failure} {failure : Failure} (h : Runs s n t k raised)
    (failed : raised = some failure) (m : Nat) : Runs s (n + m) t k raised := by
  induction h with
  | spent | stopped => cases failed
  | left running step =>
      rw [Nat.add_right_comm]
      exact .left running step
  | step running step rest ih =>
      rw [Nat.add_right_comm]
      exact .step running step (ih failed)

theorem count_le (h : Runs s n t k e) : k ≤ n := by
  induction h with
  | spent => exact Nat.le_refl 0
  | stopped | left => exact Nat.zero_le _
  | step running step rest ih => exact Nat.succ_le_succ ih

/-- What every step does to a session, and so do two such changes in a row, a run does to it. -/
theorem relates {motive : Session → Session → Prop} (h : Runs s n t k e)
    (same : ∀ s, motive s s) (each : ∀ s, motive s s.step.1)
    (trans : ∀ {s t u}, motive s t → motive t u → motive s u) : motive s t := by
  induction h with
  | @spent s | @stopped s => exact same s
  | @left s t n failure running step =>
      have moved := each s
      rw [step] at moved
      exact moved
  | @step s t u n k e running step rest ih =>
      have moved := each s
      rw [step] at moved
      exact trans moved ih

theorem leaves (h : Runs s n t k e) : s.feed.Leaves t.feed := by
  apply h.relates (motive := fun s t => s.feed.Leaves t.feed)
  · exact fun s => .refl
  · exact step_leaves
  · exact fun first second => first.trans second

theorem uninterrupted (h : Runs s n t k e) (calm : s.feed.Uninterrupted) :
    e ≠ some .interrupted := by
  induction h with
  | spent | stopped => exact (Option.some_ne_none _).symm
  | @left s t n failure running step =>
      have kept := step_uninterrupted calm
      rw [step] at kept
      exact kept
  | @step s t u n k e running step rest ih =>
      have read := s.step_leaves
      rw [step] at read
      exact ih (calm.leaves read)

theorem encodes (h : Runs s n t k e) : t.output.encodes = s.output.encodes := by
  apply h.relates (motive := fun s t => t.output.encodes = s.output.encodes)
  · exact fun s => rfl
  · exact step_encodes
  · exact fun first second => second.trans first

end Runs

/-- A step that is completed counts as one cycle. -/
theorem cycles_of_completed (running : s.machine.running = true) (step : s.step = (t, none)) :
    t.machine.cycles = s.machine.cycles + 1 := by
  obtain ⟨i, effect, -, performed⟩ := performed_of_completed running step
  have counted := (s.poised i).perform_cycles (s.machine.pc + i.opcode.size) effect
  rw [performed, poised_machine] at counted
  exact counted

/-- The count of a run that raises nothing is the growth of the count of cycles. -/
theorem Runs.cycles (h : Runs s n t k e) (completed : e = none) :
    t.machine.cycles = s.machine.cycles + k := by
  induction h with
  | spent | stopped => rfl
  | left => cases completed
  | step running step rest ih => rw [ih completed, cycles_of_completed running step]; omega

/-- A run without a bound that comes to its end after so many steps. -/
inductive Finishes : Session → Nat → Session → Prop where
  | stopped {s : Session} (stopped : s.machine.running = false) : Finishes s 0 s
  | step {s t u : Session} {k : Nat} (running : s.machine.running = true)
      (step : s.step = (t, none)) (rest : Finishes t k u) : Finishes s (k + 1) u

namespace Finishes

theorem stopped_end (h : Finishes s k t) : t.machine.running = false := by
  induction h with
  | stopped stopped => exact stopped
  | step _ _ _ ih => exact ih

/-- A bound that is not below the number of steps is never met. -/
theorem run_of_le (h : Finishes s k t) (enough : k ≤ n) : s.run n = (t, k, none) := by
  induction h generalizing n with
  | stopped stopped => exact run_of_stopped stopped n
  | step running step rest ih =>
      cases n with
      | zero => exact absurd enough (Nat.not_succ_le_zero _)
      | succ n => rw [run_succ running step, ih (Nat.le_of_succ_le_succ enough)]

/-- A bound below the number of steps is used up. -/
theorem run_of_lt (h : Finishes s k t) (short : n < k) :
    ∃ u, s.run n = (u, n, none) ∧ u.machine.running = true := by
  induction h generalizing n with
  | stopped => exact absurd short (Nat.not_lt_zero n)
  | @step s t u k running step rest ih =>
      cases n with
      | zero => exact ⟨s, rfl, running⟩
      | succ n =>
          obtain ⟨v, ran, goes_on⟩ := ih (Nat.lt_of_succ_lt_succ short)
          exact ⟨v, by rw [run_succ running step, ran], goes_on⟩

end Finishes

theorem Runs.finishes (h : Runs s n t k e) (completed : e = none)
    (stopped : t.machine.running = false) : Finishes s k t := by
  induction h with
  | spent | stopped => exact .stopped stopped
  | left => cases completed
  | step running step rest ih => exact .step running step (ih completed stopped)

/-- A run without a bound comes to its end as a run does whose bound is large enough. -/
theorem finishes_iff :
    Finishes s k t ↔ ∃ n, s.run n = (t, k, none) ∧ t.machine.running = false := by
  constructor
  · intro h
    exact ⟨k, h.run_of_le (Nat.le_refl k), h.stopped_end⟩
  · rintro ⟨n, ran, stopped⟩
    exact (runs_of_run ran).finishes rfl stopped

/-- What may become of a session as long as nothing is restored. -/
inductive Unrestored (s : Session) : Session → Prop where
  | refl : Unrestored s s
  | elsewhere {t u : Session} (h : Unrestored s t) (machine : u.machine = t.machine) :
      Unrestored s u
  | loaded {t : Session} {d : Debugger} (h : Unrestored s t) (words : List Int)
      (fits : t.debugger.loadImage words = .ok d) : Unrestored s { t with debugger := d }
  | stored {t : Session} (h : Unrestored s t) (memory : Memory) :
      Unrestored s (t.mapMachine fun m => { m with memory })
  | command {t : Session} (h : Unrestored s t) (c : Command) (argv : List String)
      (fails : c = .load → ∀ outcome, (c.run t.debugger argv).2 = .ok outcome →
        outcome.status ≠ 0) : Unrestored s { t with debugger := (c.run t.debugger argv).1 }
  | halted {t : Session} (h : Unrestored s t) : Unrestored s (t.mapDebugger Debugger.halt)
  | asked {t : Session} (h : Unrestored s t) (stays : ∀ c ∈ t.calls, ¬c.Reloads) :
      Unrestored s t.nextChar.1
  | stepped {t : Session} (h : Unrestored s t) : Unrestored s t.step.1

end Session

theorem Command.stopped_run {c : Command} {d : Debugger} {argv : List String}
    (stopped : d.machine.running = false)
    (fails : c = .load → ∀ outcome, (c.run d argv).2 = .ok outcome → outcome.status ≠ 0) :
    (c.run d argv).1.machine.running = false := by
  obtain ⟨preempted, ran⟩ := c.run_fst d argv
  rw [ran]
  cases c.deed d argv with
  | quiet host debugger => rw [debugger]; exact stopped
  | stored host cell value command attached target ran => rw [ran]; exact stopped
  | halted host command ran => rw [ran]
  | restored host path s memory command file read cells ran =>
      have restored : (c.run d argv).2 = .ok { preempts := true } := by simp only [run, ran]
      exact absurd rfl (fails command _ restored)

namespace Session

variable {s t u : Session} {n m k : Nat}

/-- A machine that stands still goes on standing still. -/
theorem Unrestored.stopped (h : s.Unrestored t) (stopped : s.machine.running = false) :
    t.machine.running = false := by
  induction h with
  | refl => exact stopped
  | elsewhere _ machine ih => rw [machine]; exact ih
  | @loaded t d _ words fits ih =>
      unfold Debugger.loadImage Machine.loadImage at fits
      cases memory : t.debugger.machine.memory.load words 0 with
      | error e => rw [memory] at fits; cases fits
      | ok memory' => rw [memory] at fits; cases fits; exact ih
  | stored _ memory ih => exact ih
  | command _ c argv fails ih => exact Command.stopped_run ih fails
  | @halted t _ ih =>
      show t.debugger.halt.machine.running = false
      rw [Debugger.halt_machine]
  | asked _ stays ih => exact (nextChar_stays stays).stopped ih
  | stepped _ ih => rw [step_of_stopped ih]; exact ih

/-- Two runs, one after the other, and one over all their steps: they come to the same session. The
counts add up when neither is left, and a fault of the whole is the fault of exactly one of the
two, after which nothing more is carried out. -/
structure Composes (first second whole : Session × Nat × Option Failure) : Prop where
  session : whole.1 = second.1
  counts : first.2.2 = none → second.2.2 = none → whole.2 = (first.2.1 + second.2.1, none)
  faults : ∀ f, whole.2.2 = some (.fault f) ↔
    first.2.2 = some (.fault f) ∧ second = (first.1, 0, none) ∨
      first.2.2 = none ∧ second.2.2 = some (.fault f)

theorem composes_of_completed (first : s.run n = (t, k, none)) (m : Nat) :
    Composes (s.run n) ((s.run n).1.run m) (s.run (n + m)) := by
  have whole := ((runs_of_run first).add rfl (t.runs m)).run_eq
  rw [first, whole]
  refine ⟨rfl, ?_, ?_⟩
  · intro _ completed
    rw [completed]
  · intro f
    simp

theorem composes_of_fault {f : Fault} (first : s.run n = (t, k, some (.fault f))) (m : Nat) :
    Composes (s.run n) ((s.run n).1.run m) (s.run (n + m)) := by
  have whole := ((runs_of_run first).left_add rfl m).run_eq
  obtain ⟨u, raised⟩ := step_of_run first
  cases raised_of_step raised with
  | fault stopped =>
      rw [first, whole, run_of_stopped stopped m]
      exact ⟨rfl, by simp, by simp⟩

/-- An output is left by an encoding only if it takes encoded text. -/
theorem encodes_of_unencodable {unit : Word} (left : s.run n = (t, k, some (.unencodable unit))) :
    s.output.encodes = true := by
  have settled := (runs_of_run left).encodes
  obtain ⟨u, raised⟩ := step_of_run left
  cases raised_of_step raised with
  | unencodable upcoming encodes =>
      rw [← settled, (u.near_poised _).output]
      exact encodes

/-- A run that its output cuts off is cut off again when it is taken up, and counts one more cycle
then, which a run over all the steps does not. -/
theorem cycles_of_unencodable {unit : Word} (left : s.run n = (t, k, some (.unencodable unit)))
    (more : 0 < m) : (t.run m).1.machine.cycles = t.machine.cycles + 1 ∧
      s.run (n + m) = (t, k, some (.unencodable unit)) := by
  refine ⟨?_, ((runs_of_run left).left_add rfl m).run_eq⟩
  obtain ⟨m, rfl⟩ := Nat.exists_eq_add_of_lt more
  obtain ⟨u, raised⟩ := step_of_run left
  have running := running_of_step raised
  cases raised_of_step raised with
  | @unencodable i unit upcoming encodes half =>
      have machine := u.poised_machine i
      have running' : (u.poised i).machine.running = true := by rw [machine]; exact running
      have upcoming' : (u.poised i).machine.upcoming = .ok (i, .emit unit) := by
        rw [machine]
        exact upcoming
      have encodes' : (u.poised i).output.encodes = true := by
        rw [(u.near_poised i).output]
        exact encodes
      have again := step_of_surrogate running' upcoming' encodes' half
      rw [Nat.zero_add, run_succ_of_failure running' again, poised_machine]

/-- Without interrupts in the input, two runs one after the other come to what one run over all
their steps comes to, as long as the output takes what the first one puts out. The count of a run
that raises nothing is the growth of the count of cycles and within the bound; where a run without a
bound comes to its end, a bound matters only below the number of its steps. What stands still does
so until it is restored. -/
theorem runs_compose (s : Session) (calm : s.feed.Uninterrupted) (n m : Nat) :
    (s.output.encodes = false ∨ (∀ unit, (s.run n).2.2 ≠ some (.unencodable unit)) →
      Composes (s.run n) ((s.run n).1.run m) (s.run (n + m))) ∧
    (∀ t k, s.run n = (t, k, none) → t.machine.cycles = s.machine.cycles + k ∧ k ≤ n) ∧
    (∀ t k, s.Finishes k t →
      (k ≤ n → s.run n = (t, k, none)) ∧
      (n < k → ∃ u, s.run n = (u, n, none) ∧ u.machine.running = true)) ∧
    (∀ t k, s.Finishes k t ↔ ∃ n, s.run n = (t, k, none) ∧ t.machine.running = false) ∧
    (s.machine.running = false → ∀ t, s.Unrestored t →
      t.machine.running = false ∧ t.step = (t, none) ∧ t.run n = (t, 0, none)) := by
  refine ⟨?_, ?_, ?_, fun t k => finishes_iff, ?_⟩
  · intro takes
    rcases first : s.run n with ⟨t, k, raised⟩
    rw [← first]
    cases raised with
    | none => exact composes_of_completed first m
    | some failure =>
        obtain ⟨u, raised⟩ := step_of_run first
        cases raised_of_step raised with
        | fault => exact composes_of_fault first m
        | interrupted => exact absurd rfl ((runs_of_run first).uninterrupted calm)
        | @unencodable i unit =>
            obtain accepts | untouched := takes
            · rw [encodes_of_unencodable first] at accepts
              cases accepts
            · exact absurd (by rw [first]) (untouched unit)
  · intro t k ran
    have told := runs_of_run ran
    exact ⟨told.cycles rfl, told.count_le⟩
  · intro t k finishes
    exact ⟨finishes.run_of_le, finishes.run_of_lt⟩
  · intro stopped t unrestored
    have still := unrestored.stopped stopped
    exact ⟨still, step_of_stopped still, run_of_stopped still n⟩

/-- A session whose guest puts a character of its input out and then divides by zero. -/
def echoing : Session where
  debugger := { machine := { memory := Memory.blank.fill 0 [20, 32768, 19, 32768, 11, 0, 0, 0] } }
  feed := .ofLines ["!set 100 7", "x"]

theorem echoing_runs_compose :
    echoing.feed.Uninterrupted ∧ echoing.output.encodes = false ∧
      Composes (echoing.run 2) ((echoing.run 2).1.run 3) (echoing.run (2 + 3)) := by
  have calm : echoing.feed.Uninterrupted := StreamEnd.noConfusion
  obtain ⟨composes, -⟩ := runs_compose echoing calm 2 3
  exact ⟨calm, rfl, composes (.inl rfl)⟩

/-- After a step that is cut off, another one comes to another count of cycles than two steps do. -/
theorem halving_runs_apart :
    halving.Reachable ∧ halving.feed.Uninterrupted ∧
      ((halving.run 1).1.run 1).1.machine.cycles = 2 ∧
      (halving.run (1 + 1)).1.machine.cycles = 1 ∧
      ¬∀ s : Session, s.Reachable → s.feed.Uninterrupted → ∀ n m : Nat,
        Composes (s.run n) ((s.run n).1.run m) (s.run (n + m)) := by
  have calm : halving.feed.Uninterrupted := trivial
  have cut : halving.run 1 =
      (halving.poised halvingInstruction, 0, some (.unencodable 55296)) :=
    run_succ_of_failure rfl (step_of_surrogate rfl halving_upcoming rfl ⟨by decide, by decide⟩) 0
  have counted : (halving.poised halvingInstruction).machine.cycles = 1 := by
    rw [poised_machine]
    rfl
  obtain ⟨again, whole⟩ := cycles_of_unencodable cut Nat.one_pos
  have later : ((halving.run 1).1.run 1).1.machine.cycles = 2 := by
    rw [cut, again, counted]
  have at_once : (halving.run (1 + 1)).1.machine.cycles = 1 := by
    rw [whole, counted]
  refine ⟨halving_reachable, calm, later, at_once, ?_⟩
  intro compose
  have same := (compose halving halving_reachable calm 1 1).session
  rw [same, later] at at_once
  cases at_once

end Session

end WordMachine
