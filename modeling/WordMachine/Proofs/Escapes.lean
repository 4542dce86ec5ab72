import WordMachine.CommandLine.Invocation
import WordMachine.Proofs.CommandOutcome
import WordMachine.Proofs.MemoryTable
import WordMachine.Proofs.Reachability

/-!
# What gets out of a run

A step of a running machine is completed or stops the machine with a recorded fault, unless the
operator interrupts it. One thing else gets out: an output that takes encoded text only refuses half
of a surrogate pair, and the machine still runs then. An invocation ends with a status but for that,
for a limit that was lost and for a history in the home directory of nobody.
-/

namespace WordMachine

theorem Output.accepts_eq_false_iff {o : Output} {unit : Word} :
    o.accepts unit = false ↔ o.encodes = true ∧ unit.Surrogate := by
  have low : (0xD800 ≤ unit) ↔ 0xD800 ≤ unit.toNat := UInt16.le_iff_toNat_le
  have high : (unit ≤ 0xDFFF) ↔ unit.toNat ≤ 0xDFFF := UInt16.le_iff_toNat_le
  simp only [accepts, Bool.not_eq_false', Bool.and_eq_true, decide_eq_true_eq, low, high,
    Word.Surrogate, and_assoc]

namespace Session

variable {s t : Session} {e : Failure}

/-- What a step that is not completed raises, and how it leaves the session. -/
inductive Raised (s : Session) : Session → Failure → Prop where
  | fault {t : Session} {f : Fault} (stopped : t.machine.running = false)
      (recorded : t.machine.fault = some f) : Raised s t (.fault f)
  | interrupted {t : Session} {cell : Cell} (waits : s.machine.WaitsFor cell)
      (reads : ∃ (last : Feed) (host : Host),
        last.nextLine host = (.interrupted, t.feed, t.debugger.host)) : Raised s t .interrupted
  | unencodable {i : Instruction} {unit : Word} (upcoming : s.machine.upcoming = .ok (i, .emit unit))
      (encodes : s.output.encodes = true) (half : unit.Surrogate) :
      Raised s (s.poised i) (.unencodable unit)

theorem raised_of_fail {u : Session} {cause : Fault.Cause} (failed : u.fail cause = (t, some e)) :
    Raised s t e := by
  obtain ⟨rfl, rfl⟩ : (u.fail cause).1 = t ∧ e = .fault ⟨cause, some u.machine.pc⟩ := by
    rw [failed]
    exact ⟨rfl, (Option.some.inj (congrArg Prod.snd failed)).symm⟩
  exact .fault rfl rfl

theorem running_of_step (raised : s.step = (t, some e)) : s.machine.running = true := by
  cases still : s.machine.running with
  | true => rfl
  | false => simp [step, still] at raised

theorem raised_of_step (raised : s.step = (t, some e)) : s.Raised t e := by
  have running := running_of_step raised
  rcases upcoming : s.machine.upcoming with cause | ⟨i, effect⟩
  · obtain ⟨u, -, refused⟩ := step_of_refused running upcoming
    exact raised_of_fail (refused.symm.trans raised)
  · rw [step_of_upcoming running upcoming] at raised
    cases effect with
    | emit unit =>
        rw [perform_emit] at raised
        split at raised
        · cases congrArg Prod.snd raised
        · next refused =>
            cases raised
            have unaccepted := (s.near_poised i).output ▸ Bool.eq_false_iff.mpr refused
            obtain ⟨encodes, half⟩ := Output.accepts_eq_false_iff.mp unaccepted
            exact .unencodable upcoming encodes half
    | await cell =>
        rw [perform_await] at raised
        rcases asked : (s.poised i).nextChar with ⟨u, delivery⟩
        rw [asked] at raised
        cases delivery with
        | char | preempted => cases congrArg Prod.snd raised
        | failed cause => exact raised_of_fail raised
        | interrupted =>
            cases raised
            exact .interrupted (Machine.waitsFor_iff.mpr ⟨i, upcoming⟩) ((nextChar_ends asked).2 rfl)
    | _ => cases congrArg Prod.snd raised

/-- Whenever half of a surrogate pair is put out as encoded text, the step is left. -/
theorem step_of_surrogate {i : Instruction} {unit : Word} (running : s.machine.running = true)
    (upcoming : s.machine.upcoming = .ok (i, .emit unit)) (encodes : s.output.encodes = true)
    (half : unit.Surrogate) : s.step = (s.poised i, some (.unencodable unit)) := by
  have refused : (s.poised i).output.accepts unit = false := by
    rw [(s.near_poised i).output]
    exact Output.accepts_eq_false_iff.mpr ⟨encodes, half⟩
  rw [step_of_upcoming running upcoming, perform_emit, refused]
  rfl

/-- A run that fails does so by a step. -/
theorem step_of_run {n count : Nat} (ran : s.run n = (t, count, some e)) :
    ∃ u : Session, u.step = (t, some e) := by
  induction n generalizing s count with
  | zero => cases ran
  | succ n ih =>
      cases running : s.machine.running with
      | false =>
          rw [run_of_stopped running] at ran
          cases ran
      | true =>
          rcases step : s.step with ⟨u, outcome⟩
          cases outcome with
          | none =>
              rw [run_succ running step] at ran
              obtain ⟨rfl, -, failed⟩ : (u.run n).1 = t ∧ (u.run n).2.1 + 1 = count ∧
                  (u.run n).2.2 = some e := by simpa using ran
              exact ih (Prod.ext rfl (Prod.ext rfl failed))
          | some e' =>
              rw [run_succ_of_failure running step] at ran
              cases ran
              exact ⟨s, step⟩

end Session

namespace Path

/-- A path without a NUL. -/
def Clean (p : Path) : Prop := '\x00' ∉ p.root.toList ∧ ∀ name ∈ p.parts, '\x00' ∉ name.toList

theorem not_mem_intercalate {c : Char} {sep : List Char} {texts : List (List Char)}
    (apart : c ∉ sep) (clean : ∀ text ∈ texts, c ∉ text) : c ∉ sep.intercalate texts := by
  induction texts with
  | nil => simp
  | cons text texts ih =>
      have later := ih fun other mem => clean other (List.mem_cons_of_mem text mem)
      have first := clean text List.mem_cons_self
      cases texts with
      | nil => simpa using first
      | cons next texts =>
          rw [List.intercalate_cons_cons]
          simp [first, apart, later]

theorem Clean.toString {p : Path} (clean : p.Clean) :
    p.toString.toList.contains '\x00' = false := by
  unfold Path.toString
  split
  · decide
  · have names : '\x00' ∉ "/".toList.intercalate (p.parts.map String.toList) := by
      refine not_mem_intercalate (by decide) ?_
      intro text mem
      obtain ⟨name, named, rfl⟩ := List.mem_map.mp mem
      exact clean.2 name named
    simpa [String.toList_intercalate] using ⟨clean.1, names⟩

theorem Clean.append {p : Path} {names : List String} (clean : p.Clean)
    (more : ∀ name ∈ names, '\x00' ∉ name.toList) : { p with parts := p.parts ++ names }.Clean := by
  refine ⟨clean.1, ?_⟩
  intro name mem
  rcases List.mem_append.mp mem with mem | mem
  · exact clean.2 name mem
  · exact more name mem

end Path

/-- No home directory has a NUL in its path. -/
structure Homes.Clean (homes : Homes) : Prop where
  own : homes.own.Clean
  ofUser : ∀ user home, homes.ofUser user = some home → home.Clean

theorem Homes.clean_minimal {own : Path} (clean : own.Clean) : (Homes.minimal own).Clean where
  own := clean
  ofUser := by
    intro user home found
    by_cases administrator : user = "root"
    · obtain rfl := Option.some.inj ((if_pos administrator).symm.trans found)
      exact ⟨by decide, by decide⟩
    · cases (if_neg administrator).symm.trans found

theorem Homes.Clean.find {homes : Homes} {user : String} (clean : homes.Clean)
    (no_nul : user.contains '\x00' = false) :
    (∃ home, homes.find user = .ok home ∧ home.Clean) ∨
      homes.find user = .error .unknownHome := by
  unfold Homes.find
  split
  · exact .inl ⟨_, rfl, clean.own⟩
  · rw [no_nul, if_neg Bool.false_ne_true]
    split
    · next home found => exact .inl ⟨home, rfl, clean.ofUser user home found⟩
    · exact .inr rfl

/-- A clean path is not refused for a NUL, and leads to a clean one. -/
theorem Path.Clean.expandHome {p : Path} {homes : Homes} (clean : p.Clean)
    (homes_clean : homes.Clean) :
    (∃ q, p.expandHome homes = .ok q ∧ q.Clean) ∨ p.expandHome homes = .error .unknownHome := by
  unfold Path.expandHome
  split
  · next first rest parts =>
      split
      · have names : ∀ name ∈ rest, '\x00' ∉ name.toList := fun name mem =>
          clean.2 name (parts ▸ List.mem_cons_of_mem first mem)
        have user : (first.drop 1).toString.contains '\x00' = false := by
          have nul := clean.2 first (parts ▸ List.mem_cons_self)
          rw [String.contains_char_eq, decide_eq_false_iff_not]
          simpa using fun mem => nul (List.mem_of_mem_tail mem)
        obtain ⟨home, found, home_clean⟩ | nobody := homes_clean.find user
        · rw [found]
          exact .inl ⟨_, rfl, home_clean.append names⟩
        · rw [nobody]
          exact .inr rfl
      · exact .inl ⟨p, rfl, clean⟩
  · exact .inl ⟨p, rfl, clean⟩

/-- An operation whose only errors are refusals of the operating system. -/
def Refuses {α : Type} (x : Except FileError α) : Prop := ∀ e, x = .error e → ∃ r, e = .os r

namespace Refuses

variable {α β : Type} {x : Except FileError α} {f : α → Except FileError β}

theorem ok (a : α) : Refuses (.ok a : Except FileError α) := by
  intro e failed
  cases failed

theorem os (r : Refusal) : Refuses (.error (.os r) : Except FileError α) := by
  intro e failed
  exact ⟨r, (Except.error.inj failed).symm⟩

theorem bind (first : Refuses x) (later : ∀ a, Refuses (f a)) : Refuses (x >>= f) := by
  cases x with
  | ok a => exact later a
  | error e =>
      obtain ⟨r, rfl⟩ := first e rfl
      exact os r

theorem mapError {ε : Type} (x : Except ε α) (g : ε → Refusal) :
    Refuses (x.mapError fun e => .os (g e)) := by
  cases x with
  | ok a => exact ok a
  | error e => exact os (g e)

end Refuses

namespace FileTree

variable {t : FileTree} {p : Path}

theorem refuses_locate (clean : p.Clean) : Refuses (t.locate p) := by
  unfold locate
  rw [clean.toString]
  exact .mapError _ _

theorem refuses_readFile (clean : p.Clean) : Refuses (t.readFile p) := by
  refine (refuses_locate clean).bind fun loc => ?_
  split
  · exact .ok _
  · exact .os _
  · exact .os _

theorem refuses_openFile (clean : p.Clean) : Refuses (t.openFile p) := by
  refine (refuses_locate clean).bind fun loc => ?_
  split
  · exact .ok _
  · exact .os _
  · exact .os _

theorem refuses_createFile {text : String} (clean : '\x00' ∉ text.toList) :
    Refuses (t.createFile text) := by
  have no_nul : text.contains '\x00' = false := by
    rw [String.contains_char_eq, decide_eq_false_iff_not]
    exact clean
  unfold createFile
  simp only [no_nul, Bool.false_eq_true, if_false]
  split
  · exact .os _
  · split
    · exact .os _
    · refine (Refuses.mapError _ _).bind fun loc => ?_
      split
      · exact .os _
      · exact .ok _

end FileTree

/-- A snapshot that cannot be read is reported as such. -/
theorem Host.readSnapshot_error {h : Host} {p : Path} {e : Failure} (clean : p.Clean)
    (failed : (h.readSnapshot p).2 = .error e) : ∃ cause, e = .snapshot cause := by
  unfold readSnapshot at failed
  split at failed
  · exact ⟨_, (Except.error.inj failed).symm⟩
  · next e' other read =>
      obtain ⟨r, rfl⟩ := FileTree.refuses_readFile clean e' read
      exact absurd rfl (other r)
  · split at failed
    · exact ⟨_, (Except.error.inj failed).symm⟩
    · cases failed

theorem Console.openAt_eq_error {editor : LineEditor} {keys : List Char} {h : Host} {p : Path}
    {limit : Nat} {homes : Homes} {e : Failure}
    (failed : openAt editor keys h p limit homes = .error e) :
    History.openAt h p limit homes = .error e := by
  unfold openAt at failed
  split at failed
  · next refused => rw [refused, Except.error.inj failed]
  · cases failed

/-- The history of a clean path can be opened, unless it is in the home directory of nobody. -/
theorem History.openAt_error {h : Host} {p : Path} {homes : Homes} {limit : Nat} {e : Failure}
    (clean : p.Clean) (homes_clean : homes.Clean) (failed : openAt h p limit homes = .error e) :
    e = .file .unknownHome ∧ p.expandHome homes = .error .unknownHome := by
  unfold openAt at failed
  obtain ⟨q, expanded, q_clean⟩ | unknown := clean.expandHome homes_clean
  · rw [expanded] at failed
    have opened : ∃ found, stored h q = .ok found := by
      unfold stored
      split
      · exact ⟨_, rfl⟩
      · exact ⟨_, rfl⟩
      · next e' _ other read =>
          obtain ⟨r, rfl⟩ := FileTree.refuses_readFile q_clean e' read
          exact absurd rfl (other r)
      · split <;> exact ⟨_, rfl⟩
    obtain ⟨found, opened⟩ := opened
    simp [opened, bind, Except.bind, pure, Except.pure] at failed
  · rw [unknown] at failed
    exact ⟨(Except.error.inj failed).symm, unknown⟩

namespace CommandLine

/-- Options as they are usually given: no path holds a NUL, and the level of the log is the name of
one, in letters of any size. -/
structure Options.Usual (o : Options) : Prop where
  level : ∃ name, o.verbosity = some name ∧
    ∃ level : Level, String.ofList (name.toList.flatMap capitals) = level.name
  traceTo : ∀ text, o.traceTo = some text → '\x00' ∉ text.toList
  script : ∀ path, o.script = some path → path.Clean
  resumeFrom : ∀ path, o.resumeFrom = some path → path.Clean
  history : o.history.Clean

/-- How an invocation with given options can end: with a status, or by what nobody handles. -/
inductive Ends (env : Environment) (input : StandardInput) (o : Options) (h : Host) :
    Ending → Prop where
  | exit {status : Nat} (known : status ∈ [0, 1, 2, 130]) : Ends env input o h (.exit status)
  | lostLimit (lost : o.limit = .lost) : Ends env input o h (.failure (.lost .limit))
  | unknownHome (console : input.keys.isSome = true ∧ o.plainInput = false)
      (nobody : o.history.expandHome env.homes = .error .unknownHome) :
      Ends env input o h (.failure (.file .unknownHome))
  | unencodable {job : Job} {n count : Nat} {t : Session} {unit : Word}
      (job_set_up : Job.setUp env input o h = .ok job)
      (ran : job.session.run n = (t, count, some (.unencodable unit)))
      (running : t.machine.running = true) (half : unit.Surrogate) :
      Ends env input o h (.failure (.unencodable unit))

namespace Job

variable {env : Environment} {input : StandardInput} {o : Options} {h start : Host} {rank : Nat}
  {result : Result}

theorem readThreshold_ok (usual : o.Usual) : ∃ rank, readThreshold o h = .ok rank := by
  obtain ⟨name, asked, level, named⟩ := usual.level
  have known : ∃ rank, leastRank name = .ok rank := by
    unfold leastRank
    rw [named]
    cases level <;> exact ⟨_, rfl⟩
  obtain ⟨rank, known⟩ := known
  exact ⟨rank, by simp only [readThreshold, asked, known, mapError_ok]⟩

theorem ends_refuse (h : Host) (rank : Nat) (message : String) :
    Ends env input o start (refuse h rank message).ending := .exit (by simp)

theorem ends_refuseFile {e : FileError} (refused : ∃ r, e = .os r) :
    Ends env input o start (refuseFile h rank e).ending := by
  obtain ⟨r, rfl⟩ := refused
  exact ends_refuse h rank _

theorem ends_readProgram (failed : readProgram o h rank = .error result) :
    Ends env input o start result.ending := by
  unfold readProgram at failed
  split at failed
  · cases failed
  · obtain rfl := Except.error.inj failed
    exact ends_refuse _ _ _

theorem ends_openTrace (usual : o.Usual) (failed : openTrace o h rank = .error result) :
    Ends env input o start result.ending := by
  unfold openTrace at failed
  split at failed
  · cases failed
  · cases failed
  · next text _ asked =>
      split at failed
      · cases failed
      · next e created =>
          obtain rfl := Except.error.inj failed
          exact ends_refuseFile (FileTree.refuses_createFile (usual.traceTo text asked) e created)

theorem ends_openScript (usual : o.Usual) (failed : openScript o h rank = .error result) :
    Ends env input o start result.ending := by
  unfold openScript at failed
  split at failed
  · cases failed
  · next path asked =>
      split at failed
      · cases failed
      · next e opened =>
          obtain rfl := Except.error.inj failed
          exact ends_refuseFile (FileTree.refuses_openFile (usual.script path asked) e opened)

theorem ends_openPrimary (usual : o.Usual) (homes : env.homes.Clean)
    (failed : openPrimary env input o h rank = .error result) :
    Ends env input o start result.ending := by
  unfold openPrimary at failed
  split at failed
  · next keys _ typed unforced =>
      dsimp only at failed
      split at failed
      · cases failed
      · next e opened =>
          obtain rfl := Except.error.inj failed
          have refused := Console.openAt_eq_error opened
          obtain ⟨rfl, nobody⟩ := History.openAt_error usual.history homes refused
          exact .unknownHome ⟨by simp [typed], unforced⟩ nobody
  · cases failed

theorem ends_goOnFrom {d : Debugger} (usual : o.Usual) (failed : goOnFrom o d rank = .error result) :
    Ends env input o start result.ending := by
  unfold goOnFrom at failed
  split at failed
  · cases failed
  · next path asked =>
      split at failed
      · obtain rfl := Except.error.inj failed
        exact ends_refuse _ _ _
      · next h' e other read =>
          obtain ⟨cause, rfl⟩ :=
            Host.readSnapshot_error (usual.resumeFrom path asked) (congrArg Prod.snd read)
          exact absurd rfl (other cause)
      · split at failed
        · cases failed
        · obtain rfl := Except.error.inj failed
          exact ends_refuse _ _ _

theorem ends_readLimit (failed : readLimit o h rank = .error result) :
    Ends env input o start result.ending := by
  unfold readLimit at failed
  split at failed
  · cases failed
  · cases failed
  · next lost =>
      obtain rfl := Except.error.inj failed
      exact .lostLimit lost

theorem length_unpack_le {bs : Bytes} {words : List Word} (unpacked : Image.unpack bs = .ok words) :
    words.length ≤ numAddresses := by
  unfold Image.unpack at unpacked
  split at unpacked
  · cases unpacked
  · obtain rfl := Except.ok.inj unpacked
    rw [Word.length_unpack]
    omega

/-- A program that was read is never too long for a machine. -/
theorem loadImage_of_readProgram {words : List Word} {h' : Host} (d : Debugger)
    (read : readProgram o h rank = .ok (h', words)) :
    ∃ d', d.loadImage (words.map fun w => (w.toNat : Int)) = .ok d' := by
  have short : words.length ≤ numAddresses := by
    unfold readProgram Host.readImage at read
    cases content : h.files.readFile (Path.ofString o.program.toString) with
    | error e => simp [content] at read
    | ok bs =>
        cases unpacked : Image.unpack bs with
        | error e => simp [content, unpacked] at read
        | ok ws =>
            obtain ⟨-, rfl⟩ : _ ∧ ws = words := by simpa [content, unpacked] using read
            exact length_unpack_le unpacked
  unfold Debugger.loadImage Machine.loadImage
  rw [Memory.load_units _ short]
  exact ⟨_, rfl⟩

theorem except_bind_eq_error {ε α β : Type} {x : Except ε α} {f : α → Except ε β} {e : ε}
    (failed : (x >>= f) = .error e) : x = .error e ∨ ∃ a, x = .ok a ∧ f a = .error e := by
  cases x with
  | error e' => exact .inl (congrArg Except.error (Except.error.inj failed))
  | ok a => exact .inr ⟨a, rfl, failed⟩

theorem ends_setUp (usual : o.Usual) (homes : env.homes.Clean)
    (failed : setUp env input o h = .error result) : Ends env input o start result.ending := by
  unfold setUp at failed
  obtain refused | ⟨rank, -, failed⟩ := except_bind_eq_error failed
  · obtain ⟨rank, threshold⟩ := readThreshold_ok (h := h) usual
    rw [threshold] at refused
    cases refused
  obtain refused | ⟨⟨h₁, words⟩, read, failed⟩ := except_bind_eq_error failed
  · exact ends_readProgram refused
  obtain refused | ⟨⟨h₂, trace⟩, -, failed⟩ := except_bind_eq_error failed
  · exact ends_openTrace usual refused
  obtain refused | ⟨⟨h₃, script⟩, -, failed⟩ := except_bind_eq_error failed
  · exact ends_openScript usual refused
  obtain refused | ⟨⟨h₄, primary⟩, -, failed⟩ := except_bind_eq_error failed
  · exact ends_openPrimary usual homes refused
  obtain refused | ⟨d, -, failed⟩ := except_bind_eq_error failed
  · obtain ⟨d, loaded⟩ := loadImage_of_readProgram
      (Debugger.attach
        { dumpFile := o.dumpFile, snapshotFile := o.snapshotFile, host := h₄ }) read
    rw [loaded] at refused
    cases refused
  obtain refused | ⟨d, -, failed⟩ := except_bind_eq_error failed
  · exact ends_goOnFrom usual refused
  obtain refused | ⟨limit, -, failed⟩ := except_bind_eq_error failed
  · exact ends_readLimit refused
  · cases failed

theorem ending_conclude (job : Job) (s : Session) (stop : Option Failure) :
    (∃ status ∈ [0, 1, 2, 130], (job.conclude s stop).1 = .exit status) ∨
      ∃ e, stop = some e ∧ (∀ f, e ≠ .fault f) ∧ e ≠ .interrupted ∧
        (job.conclude s stop).1 = .failure e := by
  match stop with
  | none => exact .inl ⟨0, by simp, rfl⟩
  | some (.fault f) =>
      by_cases closed : f.kind = .inputClosed
      · exact .inl ⟨0, by simp, by simp [conclude, closed]⟩
      · exact .inl ⟨1, by simp, by simp [conclude, closed]⟩
  | some .interrupted => exact .inl ⟨130, by simp, rfl⟩
  | some (.snapshot _) | some (.file _) | some (.image _) | some (.load _) | some .detached
  | some (.lost _) | some (.unencodable _) | some (.unknownLevel _) | some (.noLevel _) =>
      exact .inr ⟨_, rfl, by simp, by simp, rfl⟩

theorem ends_result {job : Job} {n count : Nat} {t : Session} {stop : Option Failure}
    (set_up : setUp env input o h = .ok job) (ran : job.session.run n = (t, count, stop)) :
    Ends env input o h (job.result t stop).ending := by
  unfold result
  obtain ⟨status, known, ending⟩ | ⟨e, rfl, no_fault, uninterrupted, ending⟩ :=
    job.ending_conclude t.flushTrace stop
  · simp only [ending]
    exact .exit known
  · simp only [ending]
    obtain ⟨u, step⟩ := Session.step_of_run ran
    cases Session.raised_of_step step with
    | fault => exact absurd rfl (no_fault _)
    | interrupted => exact absurd rfl uninterrupted
    | @unencodable i unit upcoming encodes half =>
        refine .unencodable set_up ran ?_ half
        rw [Session.poised_machine]
        exact Session.running_of_step step

end Job

/-- What becomes of an invocation. -/
theorem ends_invoke {env : Environment} {input : StandardInput} {o : Options} {h : Host}
    {argv : List String} {fuel : Nat} {result : Result} (usual : o.Usual) (homes : env.homes.Clean)
    (parsed : Options.ofArguments env argv = .run o)
    (ended : invoke env input h argv fuel = some result) : Ends env input o h result.ending := by
  unfold invoke answer at ended
  rw [parsed] at ended
  dsimp only at ended
  cases set_up : Job.setUp env input o h with
  | error refused =>
      rw [set_up] at ended
      obtain rfl := Option.some.inj ended
      exact Job.ends_setUp usual homes set_up
  | ok job =>
      rw [set_up] at ended
      dsimp only [Job.run] at ended
      split at ended
      · obtain rfl := Option.some.inj ended
        exact Job.ends_result set_up rfl
      · split at ended
        · cases ended
        · obtain rfl := Option.some.inj ended
          exact Job.ends_result set_up rfl

/-- An invocation that gives no result has set no limit, and its machine is still running. -/
theorem running_of_invoke {env : Environment} {input : StandardInput} {o : Options} {h : Host}
    {argv : List String} {fuel : Nat} (parsed : Options.ofArguments env argv = .run o)
    (goes_on : invoke env input h argv fuel = none) :
    ∃ job, Job.setUp env input o h = .ok job ∧ job.limit = none ∧
      (job.session.run fuel).1.machine.running = true := by
  unfold invoke answer at goes_on
  rw [parsed] at goes_on
  dsimp only at goes_on
  cases set_up : Job.setUp env input o h with
  | error refused =>
      rw [set_up] at goes_on
      cases goes_on
  | ok job =>
      rw [set_up] at goes_on
      dsimp only [Job.run] at goes_on
      split at goes_on
      · cases goes_on
      · next unlimited =>
          split at goes_on
          · next still =>
              rw [Bool.and_eq_true] at still
              exact ⟨job, rfl, unlimited, still.2⟩
          · cases goes_on

end CommandLine

open CommandLine

/-- What is not completed stops the machine with a recorded fault or is an interrupt, but for an
output that takes encoded text only and is given half of a surrogate pair: the step is left then
with the machine running. So an invocation ends with a status, or by that, or by a limit that was
lost or a history in the home directory of nobody; it goes on only without a limit. -/
theorem abnormal_stops {env : Environment} {argv : List String} {o : Options} (s : Session)
    (input : StandardInput) (h : Host) (parsed : Options.ofArguments env argv = .run o)
    (usual : o.Usual) (homes : env.homes.Clean) (fuel : Nat) :
    (∀ t e, s.step = (t, some e) → s.Raised t e) ∧
    (∀ i unit, s.machine.running = true → s.machine.upcoming = .ok (i, .emit unit) →
      s.output.encodes = true → unit.Surrogate →
      s.step = (s.poised i, some (.unencodable unit)) ∧
        (s.poised i).machine.running = true ∧ (s.poised i).machine.fault = s.machine.fault) ∧
    (∀ result, invoke env input h argv fuel = some result → Ends env input o h result.ending) ∧
    (invoke env input h argv fuel = none →
      ∃ job, Job.setUp env input o h = .ok job ∧ job.limit = none ∧
        (job.session.run fuel).1.machine.running = true) := by
  refine ⟨fun t e => Session.raised_of_step, ?_, ?_, ?_⟩
  · intro i unit running upcoming encodes half
    refine ⟨Session.step_of_surrogate running upcoming encodes half, ?_⟩
    rw [Session.poised_machine]
    exact ⟨running, rfl⟩
  · intro result ended
    exact ends_invoke usual homes parsed ended
  · intro goes_on
    exact running_of_invoke parsed goes_on

namespace Session

/-- A session whose guest puts out half of a surrogate pair, as encoded text. -/
def halving : Session where
  debugger := { machine := { memory :=
    (Memory.blank.fill 0 [19, 32768]).set (Memory.registerCell 0) 55296 } }
  output := { encodes := true }

def halvingInstruction : Instruction := { opcode := .output, a := 32768 }

theorem halving_upcoming :
    halving.machine.upcoming = .ok (halvingInstruction, .emit 55296) := by
  have fetched : halving.machine.fetched = .ok halvingInstruction := by rfl
  have operand : halving.machine.memory.operand 32768 = .ok 55296 := by
    unfold Memory.operand
    rw [if_neg (by decide), dif_pos (by decide)]
    exact congrArg _ (Memory.get_set_self _ (Memory.registerCell 0) 55296)
  refine Machine.upcoming_eq_ok_iff.mpr ⟨fetched, ?_⟩
  simp only [Instruction.effect, halvingInstruction, operand]
  rfl

theorem halving_reachable : halving.Reachable := by
  have blank : Reachable {} := .fresh rfl rfl
  have stored := (blank.loaded [19, 32768] rfl).stored 32768 55296 rfl
  exact stored.elsewhere rfl rfl

/-- An image that halts at once. -/
def haltingHost : Host where
  files := { nodes := [(["halt.bin"], .file [0, 0])] }

/-- The options of an invocation that asks for little. -/
def plainOptions (limit : Limit) : Options :=
  { Options.standard { homes := .minimal {} } with program := { parts := ["halt.bin"] }, limit }

theorem plainOptions_usual (limit : Limit) : (plainOptions limit).Usual where
  level := ⟨"WARNING", rfl, .warning, by decide +kernel⟩
  traceTo := by
    intro text asked
    cases asked
  script := by
    intro path asked
    cases asked
  resumeFrom := by
    intro path asked
    cases asked
  history :=
    ⟨show '\x00' ∉ "".toList by decide,
      show ∀ name ∈ [".synvm-history"], '\x00' ∉ name.toList by decide⟩

theorem halving_abnormal_stops :
    halving.step = (halving.poised halvingInstruction, some (.unencodable 55296)) ∧
      halving.Raised (halving.poised halvingInstruction) (.unencodable 55296) ∧
      ∃ result o,
        invoke { homes := .minimal {} } { stream := {} } haltingHost ["halt.bin"] 1 = some result ∧
          Ends { homes := .minimal {} } { stream := {} } o haltingHost result.ending := by
  have half : (55296 : Word).Surrogate := ⟨by decide, by decide⟩
  have parsed : Options.ofArguments { homes := .minimal {} } ["halt.bin"] =
      .run (plainOptions .unlimited) := by
    decide +kernel
  obtain ⟨raised, refused, ends, -⟩ := abnormal_stops halving { stream := {} } haltingHost parsed
    (plainOptions_usual .unlimited) (Homes.clean_minimal ⟨by decide, by decide⟩) 1
  obtain ⟨step, -, -⟩ := refused halvingInstruction 55296 rfl halving_upcoming rfl half
  obtain ⟨result, ended⟩ := Option.isSome_iff_exists.mp
    (show (invoke { homes := .minimal {} } { stream := {} } haltingHost ["halt.bin"] 1).isSome = true
      by decide +kernel)
  exact ⟨step, raised _ _ step, result, _, ended, ends result ended⟩

/-- A reachable machine can be left running, without a fault, by a step that is not completed, and
an invocation can end without a status. -/
theorem stops_escape :
    (¬∀ (s t : Session) (e : Failure), s.Reachable → s.machine.running = true →
      s.step = (t, some e) → e = .interrupted ∨ t.machine.running = false) ∧
    ¬∀ (env : Environment) (input : StandardInput) (h : Host) (argv : List String) (o : Options)
      (fuel : Nat) (result : Result), Options.ofArguments env argv = .run o → o.Usual →
      env.homes.Clean → invoke env input h argv fuel = some result →
      ∃ status ∈ [0, 1, 2, 130], result.ending = .exit status := by
  constructor
  · intro stops
    have half : (55296 : Word).Surrogate := ⟨by decide, by decide⟩
    have step := step_of_surrogate rfl halving_upcoming rfl half
    obtain other | stopped := stops halving _ _ halving_reachable rfl step
    · cases other
    · rw [poised_machine] at stopped
      cases stopped
  · intro stops
    let argv := ["--max-steps=--", "halt.bin"]
    have parsed : Options.ofArguments { homes := .minimal {} } argv =
        .run (plainOptions .lost) := by
      decide +kernel
    have ending :
        (invoke { homes := .minimal {} } { stream := {} } haltingHost argv 1).map Result.ending =
          some (.failure (.lost .limit)) := by
      decide +kernel
    obtain ⟨result, ended, escaped⟩ := Option.map_eq_some_iff.mp ending
    obtain ⟨status, -, exited⟩ := stops _ _ _ _ _ _ result parsed (plainOptions_usual .lost)
      (Homes.clean_minimal ⟨by decide, by decide⟩) ended
    rw [escaped] at exited
    cases exited

end Session

end WordMachine
