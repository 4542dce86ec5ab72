import WordMachine.Proofs.Escapes

/-!
# Setting a job up

An invocation is refused, with nothing carried out, when its program, the file for its trace, its
script or its snapshot cannot be had. Otherwise its session starts with the program or the snapshot
in the machine, and with the script in front of the standard input.
-/

namespace WordMachine

namespace CommandLine

/-- A machine that a program was put into. -/
def imageMachine (content : Bytes) : Machine :=
  { memory := Memory.blank.fill 0 (Word.unpack content) }

namespace Options

variable (o : Options) (t : FileTree)

/-- The file of the program, by its path as it is shown. -/
def programFile : Path := Path.ofString o.program.toString

/-- The file for the trace, if one is asked for; an empty name asks for none. -/
def traceFile? : Option String := o.traceTo.filter (· ≠ "")

/-- The files when the one for the trace is there and empty. -/
def traced : FileTree :=
  match o.traceFile? with
  | none => t
  | some text =>
      match t.createFile text with
      | .ok (t, _) => t
      | .error _ => t

/-- The files when that for the trace and the script are held open. -/
def opened : FileTree :=
  match o.script with
  | none => o.traced t
  | some path =>
      match (o.traced t).openFile path with
      | .ok (t, _) => t
      | .error _ => o.traced t

/-- The machine that a run starts with: the one with the program, or the snapshot restored in it. -/
def StartsWith (loaded m : Machine) : Prop :=
  match o.resumeFrom with
  | none => m = loaded
  | some path => ∃ content saved, (o.opened t).readFile path = .ok content ∧
      Snapshot.decode content = .ok saved ∧ loaded.restored saved = .ok m

/-- What a run reads: the script, if there is one, before the standard input. -/
def ReadsFrom (stdin : TextStream) (feed : Feed) : Prop :=
  match o.script with
  | none => feed = .stream stdin
  | some path => ∃ file, (o.traced t).openFile path = .ok (o.opened t, file) ∧
      feed = .chain [.stream (.ofFile file), .stream stdin]

end Options

/-- How a session starts that was set up from options. -/
structure Starts (input : StandardInput) (o : Options) (t : FileTree) (s : Session) : Prop where
  machine : ∃ content, t.readFile o.programFile = .ok content ∧
    o.StartsWith t (imageMachine content) s.machine
  waiting : s.debugger.pending = []
  setting : s.debugger.setting = (true, o.dumpFile, o.snapshotFile)
  files : s.debugger.host.files = o.opened t
  feed : o.ReadsFrom t input.stream s.feed
  unwritten : s.output.written = #[]

/-- An invocation that is refused before anything is carried out. -/
structure Result.Refused (r : Result) : Prop where
  ending : r.ending = .exit 2
  output : r.output = ""

/-- A stage of setting up: it is refused when it is blocked, and otherwise does as it should. -/
structure Settles {α : Type} (x : Except Result α) (blocked : Prop)
    (good : Except Result α → Prop) : Prop where
  refused : blocked → ∃ r, x = .error r ∧ r.Refused
  done : ¬blocked → good x

/-- Done, with a result that is as it should be. -/
def Done {α : Type} (fit : α → Prop) (x : Except Result α) : Prop := ∃ a, x = .ok a ∧ fit a

namespace Settles

variable {α β : Type} {x : Except Result α} {f : α → Except Result β} {blocked later : Prop}
  {fit : α → Prop} {good : Except Result β → Prop}

/-- One stage after the other is blocked when one of them is. -/
theorem bind (first : Settles x blocked (Done fit))
    (next : ∀ a, fit a → Settles (f a) later good) : Settles (x >>= f) (blocked ∨ later) good := by
  by_cases stopped : blocked
  · obtain ⟨r, failed, refused⟩ := first.refused stopped
    refine ⟨fun _ => ⟨r, by rw [failed]; rfl, refused⟩, fun free => ?_⟩
    exact absurd (.inl stopped) free
  · obtain ⟨a, done, fits⟩ := first.done stopped
    have rest := next a fits
    rw [done]
    exact ⟨fun either => rest.refused (either.resolve_left stopped),
      fun free => rest.done fun last => free (.inr last)⟩

theorem last (first : Settles x blocked (Done fit)) (next : ∀ a, fit a → good (f a)) :
    Settles (x >>= f) blocked good := by
  refine ⟨fun stopped => ?_, fun free => ?_⟩
  · obtain ⟨r, failed, refused⟩ := first.refused stopped
    exact ⟨r, by rw [failed]; rfl, refused⟩
  · obtain ⟨a, done, fits⟩ := first.done free
    rw [done]
    exact next a fits

end Settles

namespace Job

variable {env : Environment} {input : StandardInput} {o : Options} {h : Host} {rank : Nat}
  {t : FileTree}

end Job

end CommandLine

end WordMachine
