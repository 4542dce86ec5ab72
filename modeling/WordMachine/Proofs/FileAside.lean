import WordMachine.Proofs.AtomicReplacement

/-!
# A file set aside

Two trees that differ in the content of one file. Whatever is done by paths that do not lead to that
file, in both of them, fails alike or leaves two such trees again: a walk never looks into a file,
and without links a file stands at one location only.
-/

namespace WordMachine

namespace Path

/-- Where a name leads from a place. -/
def advance (loc : Location) (name : String) : Location :=
  if name = "." then loc else if name = ".." then loc.dropLast else loc ++ [name]

/-- The place that a path leads to from a current directory, if its directories are there. -/
def goal (p : Path) (cwd : Location) : Location :=
  p.parts.foldl advance (if p.isAbsolute then [] else cwd)

end Path

namespace FileTree

theorem eq_of_walk {t : FileTree} {start loc : Location} {names : List String}
    (walked : t.walk start names = .ok loc) : loc = names.foldl Path.advance start := by
  induction names generalizing start with
  | nil => exact (Except.ok.inj walked).symm
  | cons name names ih =>
      rw [walk] at walked
      split at walked
      · cases walked
      · cases walked
      · rw [List.foldl_cons, Path.advance]
        split at walked
        · next dot =>
            rw [if_pos dot]
            exact ih walked
        · next no_dot =>
            rw [if_neg no_dot]
            split at walked
            · next up =>
                rw [if_pos up]
                exact ih walked
            · next down =>
                rw [if_neg down]
                split at walked
                · cases walked
                · exact ih walked

theorem eq_goal_of_locate {t : FileTree} {p : Path} {loc : Location}
    (located : t.locate p = .ok loc) : loc = p.goal t.cwd :=
  eq_of_walk (resolve_eq_ok (locate_eq_ok_iff.mp located).2)

theorem eq_goal_of_resolve {t : FileTree} {p : Path} {loc : Location}
    (resolved : t.resolve p = .ok loc) : loc = p.goal t.cwd :=
  eq_of_walk (resolve_eq_ok resolved)

end FileTree

/-- A file that one of two trees may change on its own: where it stands, seen from which directory,
what the other tree holds there, and which handles lead to it. -/
structure Aside where
  cwd : Location
  loc : Location
  plain : Bytes
  held : Handle → Prop

/-- A path that does not lead to the file that is set aside. -/
def Path.Avoids (p : Path) (a : Option Aside) : Prop := ∀ x ∈ a, p.goal x.cwd ≠ x.loc

namespace FileTree

/-- Two trees that are the same but for the file that is set aside, if one is. -/
structure SameBut (a : Option Aside) (content : Bytes) (t u : FileTree) : Prop where
  cwd : u.cwd = t.cwd
  opened : u.opened = t.opened
  elsewhere : ∀ loc, (∀ x ∈ a, loc ≠ x.loc) → u.find? loc = t.find? loc
  seen : ∀ x ∈ a, t.cwd = x.cwd
  held : ∀ x ∈ a, ∀ file : Handle, t.opened[file]? = some (.named x.loc) ↔ x.held file
  plain : ∀ x ∈ a, t.find? x.loc = some (.file x.plain)
  written : ∀ x ∈ a, u.find? x.loc = some (.file content)

/-- Two outcomes that are the same error, or results that are related. -/
inductive Agree {ε α : Type} (R : α → α → Prop) : Except ε α → Except ε α → Prop where
  | ok {a b : α} (h : R a b) : Agree R (.ok a) (.ok b)
  | error (e : ε) : Agree R (.error e) (.error e)

theorem Agree.cases {ε α : Type} {R : α → α → Prop} {x y : Except ε α} (h : Agree R x y) :
    (∃ a b, x = .ok a ∧ y = .ok b ∧ R a b) ∨ ∃ e, x = .error e ∧ y = .error e := by
  cases h with
  | ok related => exact .inl ⟨_, _, rfl, rfl, related⟩
  | error e => exact .inr ⟨e, rfl, rfl⟩

theorem ne_nil_of_found {t : FileTree} {loc : Location} {node : Option Node}
    (found : t.find? loc = node) (other : node ≠ some .directory) : loc ≠ [] :=
  ne_nil_of_find? (found ▸ other)

namespace SameBut

variable {a : Option Aside} {content : Bytes} {t u : FileTree} {loc start : Location} {p : Path}

/-- Without a file that is set aside the trees are one. -/
theorem unused (content : Bytes) (t : FileTree) : SameBut none content t t :=
  ⟨rfl, rfl, fun _ _ => rfl, by simp, by simp, by simp, by simp⟩

theorem find?_cases (h : SameBut a content t u) (loc : Location) :
    u.find? loc = t.find? loc ∨
      ∃ x ∈ a, loc = x.loc ∧ t.find? loc = some (.file x.plain) ∧
        u.find? loc = some (.file content) := by
  by_cases apart : ∀ x ∈ a, loc ≠ x.loc
  · exact .inl (h.elsewhere loc apart)
  · push Not at apart
    obtain ⟨x, mem, rfl⟩ := apart
    exact .inr ⟨x, mem, rfl, h.plain x mem, h.written x mem⟩

theorem walk (h : SameBut a content t u) (names : List String) :
    u.walk start names = t.walk start names := by
  induction names generalizing start with
  | nil => rfl
  | cons name names ih =>
      rw [FileTree.walk, FileTree.walk]
      obtain same | ⟨x, -, -, plain, written⟩ := h.find?_cases start
      · rw [same]
        simp only [ih]
      · rw [plain, written]

theorem resolve (h : SameBut a content t u) (p : Path) : u.resolve p = t.resolve p := by
  unfold FileTree.resolve
  rw [h.cwd, h.walk]

theorem locate (h : SameBut a content t u) (p : Path) : u.locate p = t.locate p := by
  unfold FileTree.locate
  rw [h.resolve]

theorem apart (h : SameBut a content t u) (avoids : p.Avoids a)
    (located : t.locate p = .ok loc) : ∀ x ∈ a, loc ≠ x.loc := by
  intro x mem
  rw [eq_goal_of_locate located, h.seen x mem]
  exact avoids x mem

theorem isDirectory (h : SameBut a content t u) (p : Path) : u.isDirectory p = t.isDirectory p := by
  unfold FileTree.isDirectory
  rw [h.locate]
  cases t.locate p with
  | error e => rfl
  | ok loc =>
      obtain same | ⟨x, -, -, plain, written⟩ := h.find?_cases loc
      · simp only [same]
      · simp [plain, written]

theorem readFile (h : SameBut a content t u) (avoids : p.Avoids a) :
    u.readFile p = t.readFile p := by
  unfold FileTree.readFile
  rw [h.locate]
  cases located : t.locate p with
  | error e => rfl
  | ok loc => simp only [bind, Except.bind, h.elsewhere loc (h.apart avoids located)]

/-- The same change at one place, elsewhere than at the file that is set aside. -/
theorem change {t' u' : FileTree} (h : SameBut a content t u) (node : Option Node)
    (apart : ∀ x ∈ a, loc ≠ x.loc)
    (t_cwd : t'.cwd = t.cwd) (u_cwd : u'.cwd = u.cwd)
    (t_opened : t'.opened = t.opened) (u_opened : u'.opened = u.opened)
    (t_here : t'.find? loc = node) (u_here : u'.find? loc = node)
    (t_there : ∀ other, other ≠ loc → t'.find? other = t.find? other)
    (u_there : ∀ other, other ≠ loc → u'.find? other = u.find? other) :
    SameBut a content t' u' where
  cwd := by rw [u_cwd, h.cwd, t_cwd]
  opened := by rw [u_opened, h.opened, t_opened]
  elsewhere := by
    intro other other_apart
    by_cases here : other = loc
    · rw [here, t_here, u_here]
    · rw [t_there other here, u_there other here, h.elsewhere other other_apart]
  seen := fun x mem => t_cwd.trans (h.seen x mem)
  held := by
    rw [t_opened]
    exact h.held
  plain := fun x mem => (t_there x.loc (apart x mem).symm).trans (h.plain x mem)
  written := fun x mem => (u_there x.loc (apart x mem).symm).trans (h.written x mem)

theorem insert (h : SameBut a content t u) (node : Node) (filled : loc ≠ [])
    (apart : ∀ x ∈ a, loc ≠ x.loc) :
    SameBut a content (t.insert loc node) (u.insert loc node) :=
  h.change (some node) apart rfl rfl rfl rfl
    (find?_insert_self t node filled) (find?_insert_self u node filled)
    (fun _ other => find?_insert_of_ne t node other)
    (fun _ other => find?_insert_of_ne u node other)

theorem erase (h : SameBut a content t u) (filled : loc ≠ []) (apart : ∀ x ∈ a, loc ≠ x.loc) :
    SameBut a content (t.erase loc) (u.erase loc) :=
  h.change none apart rfl rfl rfl rfl
    ((find?_erase t filled).trans (if_pos rfl)) ((find?_erase u filled).trans (if_pos rfl))
    (fun _ other => find?_erase_of_ne t other) (fun _ other => find?_erase_of_ne u other)

/-- The same files held open otherwise; what leads to the file that is set aside stays. -/
theorem reopened (h : SameBut a content t u) {f : OpenFile → OpenFile}
    (kept : ∀ x ∈ a, ∀ file, f file = OpenFile.named x.loc ↔ file = .named x.loc) :
    SameBut a content { t with opened := t.opened.map f } { u with opened := u.opened.map f } where
  cwd := h.cwd
  opened := congrArg (List.map f) h.opened
  elsewhere := h.elsewhere
  seen := h.seen
  held := by
    intro x mem file
    rw [← h.held x mem file, List.getElem?_map, Option.map_eq_some_iff]
    constructor
    · rintro ⟨held, opened, named⟩
      rw [opened, (kept x mem held).mp named]
    · intro opened
      exact ⟨_, opened, (kept x mem _).mpr rfl⟩
  plain := h.plain
  written := h.written

theorem unlink (h : SameBut a content t u) (filled : loc ≠ []) (apart : ∀ x ∈ a, loc ≠ x.loc) :
    SameBut a content (t.unlink loc) (u.unlink loc) := by
  have erased := h.erase filled apart
  unfold FileTree.unlink
  rw [h.elsewhere loc apart]
  cases t.find? loc with
  | none => exact erased
  | some node =>
      cases node with
      | directory => exact erased
      | file held =>
          refine erased.reopened ?_
          intro x mem file
          cases file with
          | nameless other => simp
          | named l =>
              dsimp only
              by_cases here : l = loc
              · rw [if_pos here]
                have other : l ≠ x.loc := here ▸ apart x mem
                simp [other]
              · rw [if_neg here]

theorem relocate {goal : Location} (h : SameBut a content t u) (moved : Bytes)
    (start_filled : start ≠ []) (goal_filled : goal ≠ []) (start_apart : ∀ x ∈ a, start ≠ x.loc)
    (goal_apart : ∀ x ∈ a, goal ≠ x.loc) :
    SameBut a content (t.relocate start goal moved) (u.relocate start goal moved) := by
  have unlinked := h.unlink goal_filled goal_apart
  have inserted := (unlinked.erase start_filled start_apart).insert (.file moved) goal_filled
    goal_apart
  refine inserted.reopened ?_
  intro x mem file
  cases file with
  | nameless other => simp
  | named l =>
      dsimp only
      by_cases here : l = start
      · rw [if_pos here]
        have other : l ≠ x.loc := here ▸ start_apart x mem
        simp [other, goal_apart x mem]
      · rw [if_neg here]

theorem updateFile (h : SameBut a content t u) (avoids : p.Avoids a) (f : Bytes → Bytes) :
    Agree (SameBut a content) (t.updateFile p f) (u.updateFile p f) := by
  unfold FileTree.updateFile
  rw [h.locate]
  cases located : t.locate p with
  | error e => exact .error e
  | ok loc =>
      have apart := h.apart avoids located
      simp only [bind, Except.bind, h.elsewhere loc apart]
      cases found : t.find? loc with
      | none => exact .ok (h.insert _ (ne_nil_of_found found (by simp)) apart)
      | some node =>
          cases node with
          | directory => exact .error _
          | file held => exact .ok (h.insert _ (ne_nil_of_found found (by simp)) apart)

theorem removeFile (h : SameBut a content t u) (avoids : p.Avoids a) :
    Agree (SameBut a content) (t.removeFile p) (u.removeFile p) := by
  unfold FileTree.removeFile
  rw [h.locate]
  cases located : t.locate p with
  | error e => exact .error e
  | ok loc =>
      have apart := h.apart avoids located
      simp only [bind, Except.bind, h.elsewhere loc apart]
      cases found : t.find? loc with
      | none => exact .error _
      | some node =>
          cases node with
          | directory => exact .error _
          | file held => exact .ok (h.unlink (ne_nil_of_found found (by simp)) apart)

theorem moveFile {source target : Path} (h : SameBut a content t u) (avoids : source.Avoids a)
    (avoids' : target.Avoids a) :
    Agree (SameBut a content) (t.moveFile source target) (u.moveFile source target) := by
  have apart {p : Path} {loc : Location} (avoids : p.Avoids a) (resolved : t.resolve p = .ok loc) :
      ∀ x ∈ a, loc ≠ x.loc := by
    intro x mem
    rw [eq_goal_of_resolve resolved, h.seen x mem]
    exact avoids x mem
  unfold FileTree.moveFile
  rw [h.resolve, h.resolve]
  cases source_at : t.resolve source with
  | error e => exact .error _
  | ok start =>
      cases target_at : t.resolve target with
      | error e => exact .error _
      | ok goal =>
          have start_apart := apart avoids source_at
          have goal_apart := apart avoids' target_at
          simp only [bind, Except.bind, mapError_ok, h.elsewhere start start_apart,
            h.elsewhere goal goal_apart]
          split
          · exact .error _
          · split
            · next moved other start_file goal_file =>
                exact .ok (h.relocate moved (ne_nil_of_found start_file (by simp))
                  (ne_nil_of_found goal_file (by simp)) start_apart goal_apart)
            · next moved start_file goal_free =>
                exact .ok (h.relocate moved (ne_nil_of_found start_file (by simp))
                  (ne_nil_of_found goal_free (by simp)) start_apart goal_apart)
            · exact .error _
            · exact .error _
            · exact .error _

theorem clearAfter {beside : Path} (h : SameBut a content t u) (avoids : beside.Avoids a)
    (e : FileError) :
    SameBut a content (t.clearAfter beside e).1 (u.clearAfter beside e).1 ∧
      (u.clearAfter beside e).2 = (t.clearAfter beside e).2 := by
  unfold FileTree.clearAfter
  cases e with
  | nulByte | noName | unknownHome => exact ⟨h, rfl⟩
  | os refusal =>
      dsimp only
      obtain ⟨t', u', t_left, u_left, left⟩ | ⟨e', t_left, u_left⟩ := (h.removeFile avoids).cases
      · rw [t_left, u_left]
        exact ⟨left, rfl⟩
      · rw [t_left, u_left]
        exact ⟨h, rfl⟩

theorem replaceFile {target : Path} (h : SameBut a content t u) (avoids : target.Avoids a)
    (avoids' : ∀ beside, target.appendToName ".tmp" = some beside → beside.Avoids a)
    (new : Bytes) :
    SameBut a content (t.replaceFile target new).1 (u.replaceFile target new).1 ∧
      (u.replaceFile target new).2 = (t.replaceFile target new).2 := by
  unfold FileTree.replaceFile
  cases named : target.appendToName ".tmp" with
  | none => exact ⟨h, rfl⟩
  | some beside =>
      have beside_avoids := avoids' beside named
      dsimp only
      obtain ⟨t', u', t_written, u_written, written⟩ | ⟨e, t_written, u_written⟩ :=
        (h.updateFile beside_avoids fun _ => new).cases
      · rw [FileTree.writeFile, FileTree.writeFile, t_written, u_written]
        dsimp only
        obtain ⟨t'', u'', t_moved, u_moved, moved⟩ | ⟨e, t_moved, u_moved⟩ :=
          (written.moveFile beside_avoids avoids).cases
        · rw [t_moved, u_moved]
          exact ⟨moved, rfl⟩
        · rw [t_moved, u_moved]
          exact written.clearAfter beside_avoids e
      · rw [FileTree.writeFile, FileTree.writeFile, t_written, u_written]
        exact h.clearAfter beside_avoids e

theorem makeDirectory (h : SameBut a content t u) (p : Path) :
    Agree (SameBut a content) (t.makeDirectory p) (u.makeDirectory p) := by
  unfold FileTree.makeDirectory
  rw [h.locate]
  cases located : t.locate p with
  | error e => exact .error e
  | ok loc =>
      simp only [bind, Except.bind]
      obtain same | ⟨x, -, -, plain, written⟩ := h.find?_cases loc
      · rw [same]
        cases found : t.find? loc with
        | some node => exact .error _
        | none =>
            refine .ok (h.insert _ (ne_nil_of_found found (by simp)) ?_)
            rintro x mem rfl
            rw [h.plain x mem] at found
            cases found
      · rw [plain, written]
        exact .error _

theorem makeDirectories (h : SameBut a content t u) (p : Path) :
    SameBut a content (t.makeDirectories p).1 (u.makeDirectories p).1 ∧
      (u.makeDirectories p).2 = (t.makeDirectories p).2 := by
  rw [FileTree.makeDirectories.eq_def t p, FileTree.makeDirectories.eq_def u p, h.isDirectory]
  obtain ⟨t', u', t_made, u_made, made⟩ | ⟨e, t_made, u_made⟩ := (h.makeDirectory p).cases
  · rw [t_made, u_made]
    exact ⟨made, rfl⟩
  · rw [t_made, u_made]
    dsimp only
    by_cases missing : isMissing e
    · rw [if_pos missing, if_pos missing]
      by_cases root : p.parts = []
      · rw [dif_pos root, dif_pos root]
        exact ⟨h, rfl⟩
      · rw [dif_neg root, dif_neg root]
        obtain ⟨above, same⟩ := h.makeDirectories p.parent
        rcases t_above : t.makeDirectories p.parent with ⟨t₁, failed⟩
        rcases u_above : u.makeDirectories p.parent with ⟨u₁, failed'⟩
        rw [t_above, u_above] at above same
        obtain rfl : failed' = failed := same
        cases failed' with
        | some e => exact ⟨above, rfl⟩
        | none =>
            dsimp only
            rw [above.isDirectory]
            obtain ⟨t', u', t_made, u_made, made⟩ | ⟨e, t_made, u_made⟩ :=
              (above.makeDirectory p).cases
            · rw [t_made, u_made]
              exact ⟨made, rfl⟩
            · rw [t_made, u_made]
              dsimp only
              split <;> exact ⟨above, rfl⟩
    · rw [if_neg missing, if_neg missing]
      split <;> exact ⟨h, rfl⟩
termination_by p.parts.length
decreasing_by
  have := List.length_pos_iff.mpr root
  simp only [Path.parent_parts, List.length_dropLast]
  omega

/-- A file held open that is another one holds the same. -/
theorem readAt {c : Cursor} (h : SameBut a content t u) (other : ∀ x ∈ a, ¬x.held c.file)
    (n : Nat) :
    u.readAt c n = t.readAt c n := by
  have same : u.held c.file = t.held c.file := by
    unfold FileTree.held
    rw [h.opened]
    cases opened : t.opened[c.file]? with
    | none => rfl
    | some file =>
        cases file with
        | nameless content => rfl
        | named loc =>
            dsimp only
            rw [h.elsewhere loc]
            rintro x mem rfl
            exact other x mem ((h.held x mem c.file).mp opened)
  unfold FileTree.readAt
  rw [same]

/-- Bytes written at the end of the file that is set aside are added to it. -/
theorem writeAt {x : Aside} {place : Cursor} (h : SameBut (some x) content t u)
    (held : x.held place.file) (at_end : place.offset = content.length) (new : Bytes) :
    SameBut (some x) (content ++ new) t (u.writeAt place new).1 ∧
      (u.writeAt place new).2 = { place with offset := (content ++ new).length } := by
  have opened : u.opened[place.file]? = some (.named x.loc) :=
    h.opened ▸ (h.held x rfl place.file).mpr held
  have written := h.written x rfl
  have grown : overwrite content content.length new = content ++ new := by
    unfold overwrite
    cases new <;> simp
  have here : u.held place.file = content := by
    unfold FileTree.held
    rw [opened]
    simp only [written]
  have tree : (u.writeAt place new).1 = u.insert x.loc (.file (content ++ new)) := by
    unfold FileTree.writeAt
    rw [here, at_end, grown]
    simp only [opened]
  refine ⟨?_, ?_⟩
  · rw [tree]
    exact
      { cwd := h.cwd
        opened := h.opened
        elsewhere := by
          intro loc apart
          rw [find?_insert_of_ne u _ (apart x rfl), h.elsewhere loc apart]
        seen := h.seen
        held := h.held
        plain := h.plain
        written := by
          intro y mem
          obtain rfl : x = y := Option.some.inj mem
          exact find?_insert_self u _ (ne_nil_of_found written (by simp)) }
  · unfold FileTree.writeAt
    rw [at_end, List.length_append]

end SameBut

end FileTree

end WordMachine
