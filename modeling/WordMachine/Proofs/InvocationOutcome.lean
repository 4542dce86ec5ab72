import WordMachine.Proofs.JobSetUp
import WordMachine.Proofs.RunComposition

/-!
# Outcomes of invocations

What an invocation ends with, and what it writes, is settled by the run of the session that it sets
up: it refuses without one, tells faults from interrupts, and takes an end of the input for an end
of the work. All lines of a script are read before the first one of the standard input.
-/

namespace WordMachine

namespace Feed

/-- A feed that was read until there was no line left. -/
def RunsDry (feed : Feed) : Prop :=
  ∃ last host, feed.Leaves last ∧ (last.nextLine host).1 = .closed

/-- What may be left of a script with the standard input behind it: nothing of the standard input
is read before the script has run dry. -/
inductive ScriptFirst (script stdin : TextStream) : Feed → Prop where
  | script {a : TextStream} (left : (Feed.stream script).Leaves (.stream a)) :
      ScriptFirst script stdin (.chain [.stream a, .stream stdin])
  | stdin {b : TextStream} (dry : (Feed.stream script).RunsDry)
      (left : (Feed.stream stdin).Leaves (.stream b)) :
      ScriptFirst script stdin (.chain [.stream b])
  | spent (dry : (Feed.stream script).RunsDry) (dry' : (Feed.stream stdin).RunsDry) :
      ScriptFirst script stdin (.chain [])

variable {script stdin a : TextStream}

theorem stream_of_reads {reading : Reading} {next : Feed} {host host' : Host}
    (reads : (Feed.stream a).nextLine host = (reading, next, host')) : ∃ b, next = .stream b := by
  simp only [nextLine] at reads
  exact ⟨_, (congrArg (fun r => r.2.1) reads).symm⟩

theorem ScriptFirst.of_stdin (dry : (Feed.stream script).RunsDry)
    (left : (Feed.stream stdin).Leaves (.stream a)) (host : Host) :
    ScriptFirst script stdin (.chain (readFirst [.stream a] host).2.1) := by
  rw [readFirst]
  rcases reads : (Feed.stream a).nextLine host with ⟨reading, next, host'⟩
  obtain ⟨b, rfl⟩ := stream_of_reads reads
  have left' := left.of_reads reads
  cases reading with
  | closed =>
      simp only [readFirst_nil]
      exact .spent dry ⟨_, host, left, by rw [reads]⟩
  | line | failed | interrupted => exact .stdin dry left'

theorem ScriptFirst.nextLine {feed : Feed} (h : ScriptFirst script stdin feed) (host : Host) :
    ScriptFirst script stdin (feed.nextLine host).2.1 := by
  cases h with
  | @script a left =>
      simp only [Feed.nextLine]
      rw [readFirst]
      rcases reads : (Feed.stream a).nextLine host with ⟨reading, next, host'⟩
      obtain ⟨b, rfl⟩ := stream_of_reads reads
      have left' := left.of_reads reads
      cases reading with
      | closed => exact .of_stdin ⟨_, host, left, by rw [reads]⟩ .refl host'
      | line | failed | interrupted => exact .script left'
  | stdin dry left =>
      simp only [Feed.nextLine]
      exact .of_stdin dry left host
  | spent dry dry' =>
      simp only [Feed.nextLine, readFirst_nil]
      exact .spent dry dry'

/-- The order is kept however much is read. -/
theorem ScriptFirst.leaves {feed next : Feed} (h : ScriptFirst script stdin feed)
    (left : feed.Leaves next) : ScriptFirst script stdin next := by
  induction left with
  | refl => exact h
  | read _ host ih => exact ih.nextLine host

end Feed

/-- No command records a fault. -/
theorem Call.fault_after {c : Call} (sound : c.before.machine.fault = none) :
    c.after.machine.fault = none := by
  cases c.reaction with
  | quiet host after => rw [after]; exact sound
  | stored host cell value poke command succeeds after => rw [after]; exact sound
  | halted host command succeeds after => rw [after]; exact sound
  | restored host path s memory file read cells command succeeds after => rw [after]

namespace Session

variable {s t : Session} {n k : Nat} {e : Option Failure}

theorem nextChar_fault (sound : s.machine.fault = none) : s.nextChar.1.machine.fault = none := by
  apply nextChar_keeps (motive := (·.fault = none))
  · intro c mem
    exact Call.fault_after
  · exact sound

theorem perform_fault (sound : s.machine.fault = none) (next : Int) (effect : Effect)
    (completed : (s.perform next effect).2 = none) :
    (s.perform next effect).1.machine.fault = none := by
  cases effect with
  | emit unit =>
      rw [perform_emit]
      split <;> exact sound
  | await cell =>
      have kept := nextChar_fault sound
      rw [perform_await] at completed ⊢
      rcases asked : s.nextChar with ⟨t, delivery⟩
      rw [asked] at kept completed
      cases delivery with
      | char | preempted => exact kept
      | failed | interrupted => cases completed
  | halt | leave =>
      have kept (d : Debugger) : d.halt.machine.fault = d.machine.fault := by
        rw [Debugger.halt_machine]
      exact (kept _).trans sound
  | _ => exact sound

/-- A step that is completed records no fault. -/
theorem step_fault (sound : s.machine.fault = none) :
    s.step.2 = none → s.step.1.machine.fault = none := by
  refine s.step_elim ?_ ?_ ?_
  · intro stopped completed
    exact sound
  · intro t cause running refused near completed
    cases completed
  · intro i effect running upcoming completed
    exact perform_fault (by rw [poised_machine]; exact sound) _ effect completed

namespace Runs

theorem fault (h : Runs s n t k e) (completed : e = none) (sound : s.machine.fault = none) :
    t.machine.fault = none := by
  induction h with
  | spent | stopped => exact sound
  | left => cases completed
  | @step s t u n k e running step rest ih =>
      have kept := step_fault sound
      rw [step] at kept
      exact ih completed (kept rfl)

end Runs

end Session

namespace CommandLine

variable {env : Environment} {input : StandardInput} {o : Options} {h : Host} {argv : List String}
  {fuel : Nat}

/-- The job with an output that takes encoded text only, or one that takes every character. -/
def Job.writing (job : Job) (encodes : Bool) : Job :=
  { job with session := { job.session with output := { job.session.output with encodes } } }

/-- The result of an invocation with an output of either kind. -/
def invokeTo (encodes : Bool) (env : Environment) (input : StandardInput) (h : Host)
    (argv : List String) (fuel : Nat) : Option Result :=
  match answer h (Options.ofArguments env argv) with
  | .error result => some result
  | .ok options =>
      match Job.setUp env input options h with
      | .error result => some result
      | .ok job => (job.writing encodes).run fuel

/-- The output of an invocation takes encoded text only. -/
theorem Job.encodes_of_setUp {job : Job} (set_up : setUp env input o h = .ok job) :
    job.session.output.encodes = true := by
  have passed {α : Type} {x : Except Result α} {f : α → Except Result Job}
      (done : (x >>= f) = .ok job) : ∃ a, f a = .ok job := by
    cases x with
    | error r => cases done
    | ok a => exact ⟨a, done⟩
  unfold setUp at set_up
  obtain ⟨rank, set_up⟩ := passed set_up
  obtain ⟨⟨h₁, words⟩, set_up⟩ := passed set_up
  obtain ⟨⟨h₂, trace⟩, set_up⟩ := passed set_up
  obtain ⟨⟨h₃, script⟩, set_up⟩ := passed set_up
  obtain ⟨⟨h₄, primary⟩, set_up⟩ := passed set_up
  obtain ⟨d, set_up⟩ := passed set_up
  obtain ⟨d', set_up⟩ := passed set_up
  obtain ⟨limit, set_up⟩ := passed set_up
  cases set_up
  rfl

theorem invokeTo_true : invokeTo true env input h argv fuel = invoke env input h argv fuel := by
  unfold invokeTo invoke
  cases answer h (Options.ofArguments env argv) with
  | error result => rfl
  | ok options =>
      dsimp only
      cases set_up : Job.setUp env input options h with
      | error result => rfl
      | ok job =>
          have same : job.writing true = job := by
            unfold Job.writing
            rw [← Job.encodes_of_setUp set_up]
          dsimp only
          rw [same]

/-- What the end of a run means for an invocation: which status it ends with. -/
inductive Status (limit : Limit) (t : Session) (count : Nat) : Option Failure → Nat → Prop where
  | halted (halted : t.machine.status = .halted) : Status limit t count none 0
  | limited {n : Int} (limited : limit = .steps n) (running : t.machine.running = true)
      (used_up : count = n.toNat) : Status limit t count none 0
  | closed {f : Fault} (closed : f.kind = .inputClosed) : Status limit t count (some (.fault f)) 0
  | faulted {f : Fault} (other : f.kind ≠ .inputClosed) : Status limit t count (some (.fault f)) 1
  | interrupted : Status limit t count (some .interrupted) 130

/-- The most steps that a run may take. -/
def Options.bound (o : Options) (fuel : Nat) : Nat :=
  match o.limit with
  | .steps n => n.toNat
  | _ => fuel

namespace Starts

variable {t : FileTree} {s : Session}

theorem fault (h : Starts input o t s) : s.machine.fault = none := by
  obtain ⟨content, -, starts⟩ := h.machine
  unfold Options.StartsWith at starts
  cases asked : o.resumeFrom with
  | none =>
      rw [asked] at starts
      rw [starts]
      rfl
  | some path =>
      rw [asked] at starts
      obtain ⟨bytes, saved, -, -, restored⟩ := starts
      unfold Machine.restored at restored
      split at restored
      · rw [← Except.ok.inj restored]
      · cases restored

end Starts

section Halting

open Session (haltingHost plainOptions plainOptions_usual)

end Halting

end CommandLine

end WordMachine
