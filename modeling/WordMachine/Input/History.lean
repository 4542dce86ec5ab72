import WordMachine.File.Home
import WordMachine.Failure
import WordMachine.Text.CodePoint
import WordMachine.Text.Lines

/-!
# Line history

The lines typed at the console, newest last, no more than a limit of them, kept in a file from one
session to the next. New lines are appended to the file, which is written afresh only when it holds
as many lines as the limit. A file that refuses a line is only complained about; a line that cannot
be encoded is remembered, and then ends the request that brought it.
-/

namespace WordMachine

open Text (EncodeError Raw)

/-- The lines remembered, and the number of lines in their file. -/
structure History where
  path : Option Path
  limit : Nat
  entries : List Raw := []
  fileLines : Nat := 0
  deriving DecidableEq, Repr

namespace History

def defaultLimit : Int := 1000

/-- The number of lines remembered when `limit` is asked for: at least one. -/
def capacity (limit : Option Int) : Nat := max 1 (limit.getD 1).toNat

/-- The last `limit` of the lines. -/
def latest {α : Type} (limit : Nat) (lines : List α) : List α := lines.drop (lines.length - limit)

/-- The lines of a stored text, blank ones left out. -/
def parse (text : List Char) : List String :=
  let lines := Text.storedLines (Text.unifyNewlines text)
  (lines.map fun line => String.ofList (Text.trim line)).filter (· != "")

def render (lines : List String) : String := String.join (lines.map (· ++ "\n"))

/-- The lines in a file. A missing file holds none; one that cannot be read is only logged. -/
def stored (h : Host) (path : Path) : Except Failure (Host × List String) :=
  match h.files.readFile path with
  | .error (.os ⟨.noEntry, _⟩) => .ok (h, [])
  | .error (.os e) => .ok (complain e.message)
  | .error e => .error (.file e)
  | .ok bs =>
      match Text.Utf8.decode bs with
      | .ok text => .ok (h, parse text)
      | .error failure => .ok (complain failure.message)
where
  complain (cause : String) : Host × List String :=
    (h.log .warning .history s!"cannot read history {path}: {cause}", [])

/-- The history kept at a path, which may start at the home directory. -/
def openAt (h : Host) (path : Path) (limit : Nat) (homes : Homes) :
    Except Failure (Host × History) :=
  match path.expandHome homes with
  | .error e => .error (.file e)
  | .ok path => do
      let (h, lines) ← stored h path
      let entries := latest limit (lines.map Raw.ofString)
      return (h, { path, limit, entries, fileLines := lines.length })

def inMemory (limit : Nat) : History := { path := none, limit }

/-- The entries with a line remembered, unless it is blank or the latest entry again. -/
def remember (limit : Nat) (entries : List Raw) (line : Raw) : Option (List Raw) :=
  let text := Raw.trim line
  if text = [] || entries.getLast? = some text then none
  else some (latest limit (entries ++ [text]))

/-- A line with its end. -/
def terminated (line : Raw) : Raw := line ++ [.char '\n']

def complain (h : Host) (path : Path) (e : FileError) : Host :=
  h.log .warning .history s!"cannot write history {path}: {e.message}"

/-- The history with a text put into its file, which then has so many lines. The file is opened
before the text is encoded, and stays as it is then if that fails. -/
def put (s : History) (h : Host) (path : Path)
    (write : FileTree → Path → Bytes → Except FileError FileTree) (text : Raw) (fileLines : Nat) :
    Host × History × Option EncodeError :=
  match Raw.encode text with
  | .ok content =>
      match write h.files path content with
      | .ok files => ({ h with files }, { s with fileLines }, none)
      | .error e => (complain h path e, s, none)
  | .error refusal =>
      match write h.files path [] with
      | .ok files => ({ h with files }, s, some refusal)
      | .error e => (complain h path e, s, none)

/-- The history with its newest entry stored in its file. A refusal of the system is only logged;
one of the encoder is handed on. -/
def store (s : History) (h : Host) (text : Raw) : Host × History × Option EncodeError :=
  match s.path with
  | none => (h, s, none)
  | some path =>
      match h.files.makeDirectories path.parent with
      | (files, some e) => (complain { h with files } path e, s, none)
      | (files, none) =>
          if s.limit ≤ s.fileLines then
            let text := s.entries.flatMap terminated
            s.put { h with files } path FileTree.writeFile text s.entries.length
          else s.put { h with files } path FileTree.appendFile (terminated text) (s.fileLines + 1)

def append (s : History) (h : Host) (line : Raw) : Host × History × Option EncodeError :=
  match remember s.limit s.entries line with
  | none => (h, s, none)
  | some entries => store { s with entries } h (Raw.trim line)

/-- Appends lines, up to the first that the encoder refuses. -/
def extend (s : History) (h : Host) : List Raw → Host × History × Option EncodeError
  | [] => (h, s, none)
  | line :: lines =>
      match s.append h line with
      | (h, s, none) => s.extend h lines
      | refused => refused

theorem one_le_capacity (limit : Option Int) : 1 ≤ capacity limit := Nat.le_max_left 1 _

section Latest

variable {α : Type}

theorem length_latest (limit : Nat) (lines : List α) :
    (latest limit lines).length = min limit lines.length := by
  rw [latest, List.length_drop]
  omega

theorem latest_of_length_le {limit : Nat} {lines : List α} (few : lines.length ≤ limit) :
    latest limit lines = lines := by
  rw [latest, Nat.sub_eq_zero_of_le few, List.drop_zero]

theorem latest_latest (limit : Nat) (lines : List α) :
    latest limit (latest limit lines) = latest limit lines := by
  apply latest_of_length_le
  rw [length_latest]
  exact Nat.min_le_left _ _

theorem latest_map {β : Type} (f : α → β) (limit : Nat) (lines : List α) :
    latest limit (lines.map f) = (latest limit lines).map f := by
  rw [latest, latest, List.length_map, List.map_drop]

theorem getLast?_latest {limit : Nat} (positive : 1 ≤ limit) (lines : List α) :
    (latest limit lines).getLast? = lines.getLast? := by
  rw [latest, List.getLast?_drop]
  split
  · next few =>
      have empty : lines = [] := List.length_eq_zero_iff.mp (by omega)
      rw [empty, List.getLast?_nil]
  · rfl

/-- A limit that is kept to all along is the limit kept to at the end. -/
theorem latest_concat (limit : Nat) (lines : List α) (line : α) :
    latest limit (latest limit lines ++ [line]) = latest limit (lines ++ [line]) := by
  by_cases few : lines.length ≤ limit
  · rw [latest_of_length_le few]
  · have longer (lines : List α) : latest limit (lines ++ [line]) =
        lines.drop (lines.length + 1 - limit)
          ++ [line].drop (lines.length + 1 - limit - lines.length) := by
      rw [latest, List.length_append, List.length_singleton, List.drop_append]
    have kept : (latest limit lines).length = limit := by
      rw [length_latest]
      omega
    have dropped : lines.length - limit + (limit + 1 - limit) = lines.length + 1 - limit := by omega
    have left : limit + 1 - limit - limit = lines.length + 1 - limit - lines.length := by omega
    rw [longer, longer, kept, left, latest, List.drop_drop, dropped]

end Latest

theorem remember_eq (limit : Nat) (entries : List Raw) (line : Raw) :
    remember limit entries line =
      if Raw.trim line = [] ∨ entries.getLast? = some (Raw.trim line) then none
      else some (latest limit (entries ++ [Raw.trim line])) := by
  simp only [remember, Bool.or_eq_true, decide_eq_true_eq]

theorem remember_eq_none_iff {limit : Nat} {entries : List Raw} {line : Raw} :
    remember limit entries line = none ↔
      Raw.trim line = [] ∨ entries.getLast? = some (Raw.trim line) := by
  rw [remember_eq]
  split
  · next forgotten => exact iff_of_true rfl forgotten
  · next kept => exact iff_of_false (Option.some_ne_none _) kept

theorem remember_eq_some_iff {limit : Nat} {entries new : List Raw} {line : Raw} :
    remember limit entries line = some new ↔
      Raw.trim line ≠ [] ∧ entries.getLast? ≠ some (Raw.trim line) ∧
        new = latest limit (entries ++ [Raw.trim line]) := by
  rw [remember_eq]
  split
  · next forgotten =>
      exact iff_of_false (Option.some_ne_none _).symm fun ⟨filled, other, _⟩ =>
        forgotten.elim filled other
  · next kept =>
      obtain ⟨filled, other⟩ := not_or.mp kept
      rw [Option.some_inj, eq_comm]
      exact ⟨fun is => ⟨filled, other, is⟩, fun ⟨_, _, is⟩ => is⟩

theorem render_append (front back : List String) :
    render (front ++ back) = render front ++ render back := by
  unfold render
  rw [List.map_append, String.join_append]

theorem terminated_ofString (line : String) :
    terminated (Raw.ofString line) = Raw.ofString (line ++ "\n") := by
  rw [terminated, Raw.ofString, Raw.ofString, String.toList_append, List.map_append]
  rfl

theorem flatMap_terminated (lines : List String) :
    (lines.map Raw.ofString).flatMap terminated = Raw.ofString (render lines) := by
  induction lines with
  | nil => rfl
  | cons line lines ih =>
      have one : render [line] = line ++ "\n" := by simp [render]
      rw [List.map_cons, List.flatMap_cons, ih, terminated_ofString, ← List.singleton_append,
        render_append, one, Raw.ofString, Raw.ofString, Raw.ofString, ← List.map_append,
        ← String.toList_append]

variable (s : History) (h : Host) (line : Raw) (lines : List Raw)

/-- Storing a line changes nothing of a history but the number of lines in its file. -/
theorem exists_store : ∃ count, (s.store h line).2.1 = { s with fileLines := count } := by
  have put_in (h : Host) (path : Path) (write : FileTree → Path → Bytes → Except FileError FileTree)
      (text : Raw) (n : Nat) :
      ∃ count, (s.put h path write text n).2.1 = { s with fileLines := count } := by
    unfold put
    split <;> split <;> exact ⟨_, rfl⟩
  unfold store
  split
  · exact ⟨s.fileLines, rfl⟩
  · split
    · exact ⟨s.fileLines, rfl⟩
    · split
      · exact put_in _ _ _ _ _
      · exact put_in _ _ _ _ _

/-- What is remembered does not depend on the files. -/
theorem exists_append :
    ∃ count, (s.append h line).2.1 =
      { s with
        entries := (remember s.limit s.entries line).getD s.entries
        fileLines := count } := by
  unfold append
  split
  · next forgotten => exact ⟨s.fileLines, by rw [forgotten]; rfl⟩
  · next entries remembered =>
      rw [remembered]
      exact exists_store { s with entries } h _

theorem entries_append :
    (s.append h line).2.1.entries = (remember s.limit s.entries line).getD s.entries := by
  obtain ⟨count, appended⟩ := s.exists_append h line
  rw [appended]

theorem limit_append : (s.append h line).2.1.limit = s.limit := by
  obtain ⟨count, appended⟩ := s.exists_append h line
  rw [appended]

theorem path_append : (s.append h line).2.1.path = s.path := by
  obtain ⟨count, appended⟩ := s.exists_append h line
  rw [appended]

variable {s line}

theorem append_of_forgotten (forgotten : remember s.limit s.entries line = none) :
    s.append h line = (h, s, none) := by
  unfold append
  rw [forgotten]

theorem append_of_remembered {entries : List Raw}
    (remembered : remember s.limit s.entries line = some entries) :
    s.append h line = store { s with entries } h (Raw.trim line) := by
  unfold append
  rw [remembered]

theorem extend_nil : s.extend h [] = (h, s, none) := rfl

theorem extend_cons (taken : (s.append h line).2.2 = none) :
    s.extend h (line :: lines) = (s.append h line).2.1.extend (s.append h line).1 lines := by
  rcases appended : s.append h line with ⟨h', s', refusal⟩
  obtain rfl : refusal = none := by rw [appended] at taken; exact taken
  rw [extend, appended]

theorem extend_cons_of_refused {e : EncodeError} (refused : (s.append h line).2.2 = some e) :
    s.extend h (line :: lines) = s.append h line := by
  rcases appended : s.append h line with ⟨h', s', refusal⟩
  obtain rfl : refusal = some e := by rw [appended] at refused; exact refused
  rw [extend, appended]

/-! ## Lines of characters -/

/-- No entry holds half of a surrogate pair on its own. -/
def Encodable (s : History) : Prop := ∀ entry ∈ s.entries, ∃ text, entry = Raw.ofString text

theorem encodable_openAt {h h' : Host} {path : Path} {limit : Nat} {homes : Homes}
    (opened : openAt h path limit homes = .ok (h', s)) : s.Encodable := by
  unfold openAt at opened
  split at opened
  · cases opened
  · next q expanded =>
      rcases read : stored h q with e | ⟨g, lines⟩
      · simp [read, bind, Except.bind] at opened
      · obtain ⟨-, rfl⟩ : g = h' ∧ _ = s := by
          simpa [read, bind, Except.bind, pure, Except.pure] using opened
        intro entry mem
        obtain ⟨text, -, rfl⟩ := List.mem_map.mp (List.mem_of_mem_drop mem)
        exact ⟨text, rfl⟩

theorem Encodable.remember {entries : List Raw} {text : String} (encodable : s.Encodable)
    (remembered : remember s.limit s.entries (Raw.ofString text) = some entries) :
    Encodable { s with entries } := by
  obtain ⟨-, -, rfl⟩ := remember_eq_some_iff.mp remembered
  intro entry mem
  obtain mem | mem := List.mem_append.mp (List.mem_of_mem_drop mem)
  · exact encodable entry mem
  · rw [List.mem_singleton.mp mem, Raw.trim_ofString]
    exact ⟨_, rfl⟩

theorem Encodable.append (encodable : s.Encodable) (text : String) :
    (s.append h (Raw.ofString text)).2.1.Encodable := by
  intro entry mem
  rw [entries_append] at mem
  cases remembered : History.remember s.limit s.entries (Raw.ofString text) with
  | none =>
      rw [remembered] at mem
      exact encodable entry mem
  | some entries =>
      rw [remembered] at mem
      exact encodable.remember remembered entry mem

theorem exists_strings {entries : List Raw}
    (encodable : ∀ entry ∈ entries, ∃ text, entry = Raw.ofString text) :
    ∃ texts : List String, entries = texts.map Raw.ofString := by
  induction entries with
  | nil => exact ⟨[], rfl⟩
  | cons entry entries ih =>
      obtain ⟨⟨text, rfl⟩, others⟩ := List.forall_mem_cons.mp encodable
      obtain ⟨texts, rfl⟩ := ih others
      exact ⟨text :: texts, rfl⟩

theorem put_ofString (s : History) (h : Host) (path : Path)
    (write : FileTree → Path → Bytes → Except FileError FileTree) (text : String) (n : Nat) :
    (s.put h path write (Raw.ofString text) n).2.2 = none := by
  unfold put
  rw [Raw.encode_ofString]
  dsimp only
  split <;> rfl

/-- The encoder takes a line of characters, and the lines of characters before it. -/
theorem Encodable.taken (encodable : s.Encodable) (text : String) :
    (s.append h (Raw.ofString text)).2.2 = none := by
  cases remembered : History.remember s.limit s.entries (Raw.ofString text) with
  | none => rw [append_of_forgotten h remembered]
  | some entries =>
      obtain ⟨texts, rfl⟩ := exists_strings (encodable.remember remembered)
      rw [append_of_remembered h remembered]
      unfold store
      split
      · rfl
      · split
        · rfl
        · split
          · dsimp only
            rw [flatMap_terminated]
            exact put_ofString _ _ _ _ _ _
          · rw [Raw.trim_ofString, terminated_ofString]
            exact put_ofString _ _ _ _ _ _

end History

end WordMachine
