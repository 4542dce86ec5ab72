import WordMachine.File.Operation

/-!
# Replacing files

A walk only looks at directories, so a change that keeps all directories keeps every walk. A file
that is replaced as a whole therefore holds the new content at the path it was asked for. The trees
have no links, so that two locations never hold the same file.
-/

namespace WordMachine

@[simp] theorem mapError_ok {ε δ α : Type} (f : ε → δ) (a : α) :
    (Except.ok a : Except ε α).mapError f = .ok a := rfl

@[simp] theorem mapError_error {ε δ α : Type} (f : ε → δ) (e : ε) :
    (Except.error e : Except ε α).mapError f = .error (f e) := rfl

namespace FileTree

theorem lookup_erase (nodes : List (Location × Node)) (loc other : Location) :
    (nodes.filter fun entry => entry.1 != loc).lookup other =
      if other = loc then none else nodes.lookup other := by
  induction nodes with
  | nil => simp
  | cons entry nodes ih =>
      obtain ⟨place, node⟩ := entry
      by_cases erased : place = loc
      · subst erased
        have gone : ((place, node) :: nodes).filter (fun entry => entry.1 != place) =
            nodes.filter fun entry => entry.1 != place := by simp
        rw [gone, ih]
        by_cases same : other = place
        · simp [same]
        · rw [if_neg same, if_neg same, List.lookup_cons, beq_false_of_ne same]
      · have kept : ((place, node) :: nodes).filter (fun entry => entry.1 != loc) =
            (place, node) :: nodes.filter fun entry => entry.1 != loc := by simp [erased]
        rw [kept, List.lookup_cons, List.lookup_cons, ih]
        by_cases same : other = place
        · subst same
          simp [erased]
        · simp [beq_false_of_ne same]

theorem find?_erase (t : FileTree) {loc other : Location} (filled : other ≠ []) :
    (t.erase loc).find? other = if other = loc then none else t.find? other := by
  simp only [find?, erase, filled, if_false, lookup_erase]

theorem find?_erase_of_ne (t : FileTree) {loc other : Location} (ne : other ≠ loc) :
    (t.erase loc).find? other = t.find? other := by
  by_cases root : other = []
  · simp [find?, root]
  · rw [find?_erase t root, if_neg ne]

theorem find?_insert_self (t : FileTree) {loc : Location} (node : Node) (filled : loc ≠ []) :
    (t.insert loc node).find? loc = some node := by
  simp [find?, insert, filled]

theorem find?_insert_of_ne (t : FileTree) {loc other : Location} (node : Node) (ne : other ≠ loc) :
    (t.insert loc node).find? other = t.find? other := by
  by_cases root : other = []
  · simp [find?, root]
  · have erased := t.find?_erase_of_ne ne
    simp only [find?, root, if_false] at erased ⊢
    rw [insert, List.lookup_cons, beq_false_of_ne ne]
    exact erased

/-- The root is no place for a file. -/
theorem ne_nil_of_find? {t : FileTree} {loc : Location} (h : t.find? loc ≠ some .directory) :
    loc ≠ [] := by
  intro root
  exact h (by simp [find?, root])

/-- The directories of one tree are directories of another, and relative paths start there too. -/
structure KeepsDirectories (t u : FileTree) : Prop where
  cwd : u.cwd = t.cwd
  directory : ∀ loc, t.find? loc = some .directory → u.find? loc = some .directory

namespace KeepsDirectories

variable {t u v : FileTree}

theorem trans (first : t.KeepsDirectories u) (second : u.KeepsDirectories v) :
    t.KeepsDirectories v :=
  ⟨second.cwd.trans first.cwd, fun loc h => second.directory loc (first.directory loc h)⟩

theorem walk (keeps : t.KeepsDirectories u) {start goal : Location} {names : List String}
    (walked : t.walk start names = .ok goal) : u.walk start names = .ok goal := by
  induction names generalizing start with
  | nil => exact walked
  | cons name names ih =>
      cases found : t.find? start with
      | none => simp [FileTree.walk, found] at walked
      | some node =>
          cases node with
          | file content => simp [FileTree.walk, found] at walked
          | directory =>
              simp only [FileTree.walk, found] at walked
              simp only [FileTree.walk, keeps.directory start found]
              split
              · next dot =>
                  rw [if_pos dot] at walked
                  exact ih walked
              · next other =>
                  rw [if_neg other] at walked
                  split
                  · next up =>
                      rw [if_pos up] at walked
                      exact ih walked
                  · next down =>
                      rw [if_neg down] at walked
                      split
                      · next long => simp [long] at walked
                      · next short =>
                          rw [if_neg short] at walked
                          exact ih walked

theorem resolve (keeps : t.KeepsDirectories u) {p : Path} {goal : Location}
    (resolved : t.resolve p = .ok goal) : u.resolve p = .ok goal := by
  unfold FileTree.resolve at resolved ⊢
  split
  · next long => simp [long] at resolved
  · next short =>
      rw [if_neg short] at resolved
      rw [keeps.cwd]
      exact keeps.walk resolved

end KeepsDirectories

theorem keepsDirectories_insert {t : FileTree} {loc : Location} (node : Node)
    (free : t.find? loc ≠ some .directory) : t.KeepsDirectories (t.insert loc node) where
  cwd := rfl
  directory := by
    intro other found
    rw [find?_insert_of_ne]
    · exact found
    · rintro rfl
      exact free found

theorem keepsDirectories_erase {t : FileTree} {loc : Location}
    (free : t.find? loc ≠ some .directory) : t.KeepsDirectories (t.erase loc) where
  cwd := rfl
  directory := by
    intro other found
    rw [find?_erase_of_ne]
    · exact found
    · rintro rfl
      exact free found

theorem find?_unlink (t : FileTree) (loc other : Location) :
    (t.unlink loc).find? other = (t.erase loc).find? other := by
  unfold unlink
  cases t.find? loc with
  | none => rfl
  | some node => cases node <;> rfl

theorem cwd_unlink (t : FileTree) (loc : Location) : (t.unlink loc).cwd = t.cwd := by
  unfold unlink
  cases t.find? loc with
  | none => rfl
  | some node => cases node <;> rfl

theorem find?_relocate_self (t : FileTree) (start : Location) {goal : Location} (content : Bytes)
    (filled : goal ≠ []) : (t.relocate start goal content).find? goal = some (.file content) := by
  unfold relocate
  exact find?_insert_self ((t.unlink goal).erase start) (.file content) filled

theorem keepsDirectories_relocate {t : FileTree} {start goal : Location} (content : Bytes)
    (start_free : t.find? start ≠ some .directory) (goal_free : t.find? goal ≠ some .directory) :
    t.KeepsDirectories (t.relocate start goal content) := by
  have unlinked : t.KeepsDirectories (t.unlink goal) := by
    refine ⟨t.cwd_unlink goal, ?_⟩
    intro loc found
    rw [find?_unlink]
    exact (keepsDirectories_erase goal_free).directory loc found
  have still_free (loc : Location) (free : t.find? loc ≠ some .directory) :
      (t.unlink goal).find? loc ≠ some .directory := by
    rw [find?_unlink]
    by_cases root : loc = []
    · simp [find?, root] at free
    · rw [find?_erase t root]
      split
      · simp
      · exact free
  have erased := keepsDirectories_erase (still_free start start_free)
  have goal_free' : ((t.unlink goal).erase start).find? goal ≠ some .directory := by
    by_cases root : goal = []
    · simp [find?, root] at goal_free
    · rw [find?_erase _ root]
      split
      · simp
      · exact still_free goal goal_free
  have inserted := keepsDirectories_insert (.file content) goal_free'
  exact ⟨((unlinked.trans erased).trans inserted).cwd,
    ((unlinked.trans erased).trans inserted).directory⟩

theorem locate_eq_ok_iff {t : FileTree} {p : Path} {loc : Location} :
    t.locate p = .ok loc ↔ p.toString.toList.contains '\x00' = false ∧ t.resolve p = .ok loc := by
  unfold locate
  cases p.toString.toList.contains '\x00' with
  | true => simp
  | false => cases t.resolve p <;> simp

theorem writeFile_eq_ok {t u : FileTree} {p : Path} {content : Bytes}
    (written : t.writeFile p content = .ok u) :
    ∃ loc, t.locate p = .ok loc ∧ t.find? loc ≠ some .directory ∧
      u = t.insert loc (.file content) := by
  unfold writeFile updateFile at written
  cases located : t.locate p with
  | error e => simp [located, bind, Except.bind] at written
  | ok loc =>
      simp only [located, bind, Except.bind] at written
      refine ⟨loc, rfl, ?_⟩
      cases found : t.find? loc with
      | none => simpa [found, eq_comm] using written
      | some node =>
          cases node with
          | directory => simp [found] at written
          | file old => simpa [found, eq_comm] using written

theorem moveFile_eq_ok {t u : FileTree} {source target : Path}
    (moved : t.moveFile source target = .ok u) :
    ∃ start goal content, t.resolve source = .ok start ∧ t.resolve target = .ok goal ∧
      t.find? start = some (.file content) ∧ t.find? goal ≠ some .directory ∧
      u = t.relocate start goal content := by
  unfold moveFile at moved
  cases source_at : t.resolve source with
  | error e => simp [source_at, bind, Except.bind] at moved
  | ok start =>
      cases target_at : t.resolve target with
      | error e => simp [source_at, target_at, bind, Except.bind] at moved
      | ok goal =>
          simp only [source_at, target_at, bind, Except.bind, mapError_ok] at moved
          split at moved
          · cases moved
          · split at moved
            · next content other start_file goal_file =>
                exact ⟨start, goal, content, rfl, rfl, start_file, by simp [goal_file],
                  (Except.ok.inj moved).symm⟩
            · next content start_file goal_free =>
                exact ⟨start, goal, content, rfl, rfl, start_file, by simp [goal_free],
                  (Except.ok.inj moved).symm⟩
            · cases moved
            · cases moved
            · cases moved

theorem toString_appendToName {p q : Path} {suffix : String}
    (beside : p.appendToName suffix = some q) : q.toString = p.toString ++ suffix := by
  obtain ⟨name, last, rfl⟩ := Option.map_eq_some_iff.mp beside
  obtain ⟨init, parts⟩ := List.getLast?_eq_some_iff.mp last
  unfold Path.toString
  simp only [parts, List.dropLast_concat]
  cases init with
  | nil => simp [String.append_assoc]
  | cons first rest =>
      rw [String.intercalate_append_of_ne_nil (by simp) (by simp),
        String.intercalate_append_of_ne_nil (by simp) (by simp)]
      simp [String.append_assoc]

theorem contains_nul_of_appendToName {p q : Path} {suffix : String}
    (beside : p.appendToName suffix = some q) (clear : q.toString.toList.contains '\x00' = false) :
    p.toString.toList.contains '\x00' = false := by
  rw [toString_appendToName beside] at clear
  simp only [String.toList_append, List.contains_append, Bool.or_eq_false_iff] at clear
  exact clear.1

theorem clearAfter_ne_ok (t : FileTree) (beside : Path) (e : FileError) :
    (t.clearAfter beside e).2 ≠ .ok () := by
  unfold clearAfter
  split
  · split <;> simp
  · simp

/-- A replacement that succeeds has written the file beside the target and moved it there. -/
theorem replaceFile_eq_ok {t u : FileTree} {target : Path} {content : Bytes}
    (replaced : t.replaceFile target content = (u, .ok ())) :
    ∃ beside v, target.appendToName ".tmp" = some beside ∧ t.writeFile beside content = .ok v ∧
      v.moveFile beside target = .ok u := by
  unfold replaceFile at replaced
  cases named : target.appendToName ".tmp" with
  | none => simp [named] at replaced
  | some beside =>
      simp only [named] at replaced
      cases written : t.writeFile beside content with
      | error e =>
          rw [written] at replaced
          exact absurd (congrArg Prod.snd replaced) (clearAfter_ne_ok t beside e)
      | ok v =>
          simp only [written] at replaced
          cases moved : v.moveFile beside target with
          | error e =>
              rw [moved] at replaced
              exact absurd (congrArg Prod.snd replaced) (clearAfter_ne_ok v beside e)
          | ok w =>
              obtain rfl : w = u := by simpa [moved] using replaced
              exact ⟨beside, v, rfl, written, moved⟩

theorem readFile_eq_ok {t : FileTree} {p : Path} {loc : Location} {content : Bytes}
    (located : t.locate p = .ok loc) (found : t.find? loc = some (.file content)) :
    t.readFile p = .ok content := by
  simp only [readFile, located, bind, Except.bind, found]

/-- A file that was replaced holds what it was replaced by. -/
theorem readFile_of_replaceFile {t u : FileTree} {target : Path} {content : Bytes}
    (replaced : t.replaceFile target content = (u, .ok ())) : u.readFile target = .ok content := by
  obtain ⟨beside, v, named, written, moved⟩ := replaceFile_eq_ok replaced
  obtain ⟨loc, located, loc_free, rfl⟩ := writeFile_eq_ok written
  obtain ⟨start, goal, held, start_at, goal_at, start_file, goal_free, rfl⟩ := moveFile_eq_ok moved
  obtain ⟨clear, beside_at⟩ := locate_eq_ok_iff.mp located
  -- neither the writing nor the moving opens or closes a way through the tree, so that the same
  -- paths lead to the same places throughout
  have kept := keepsDirectories_insert (.file content) loc_free
  obtain rfl : loc = start := Except.ok.inj ((kept.resolve beside_at).symm.trans start_at)
  obtain rfl : content = held := by
    rw [find?_insert_self t _ (ne_nil_of_find? loc_free)] at start_file
    simpa using start_file
  have start_free : (t.insert loc (.file content)).find? loc ≠ some .directory := by
    simp [start_file]
  have kept' := keepsDirectories_relocate content start_free goal_free
  have clear' := contains_nul_of_appendToName named clear
  exact readFile_eq_ok (locate_eq_ok_iff.mpr ⟨clear', kept'.resolve goal_at⟩)
    (find?_relocate_self _ _ _ (ne_nil_of_find? goal_free))

end FileTree

end WordMachine
