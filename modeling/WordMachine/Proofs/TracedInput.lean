import WordMachine.Proofs.TracedCommands

/-!
# Input beside a trace

Lines are read in the same way from two hosts of which the second one is also traced, when none of
the sources of lines is the file that the trace goes to, and so the search for the guest's next line
ends alike in both.
-/

namespace WordMachine

variable {a : Option Aside} {content : Bytes} {lines : List String} {h k : Host}

namespace History

/-- A text is put into a file alike, or refused alike. -/
theorem put_beside (history : History) {path : Path} (b : h.Beside a content lines k)
    (avoids : path.Avoids a) (change : Bytes → Bytes → Bytes) (text : Text.Raw) (n : Nat) :
    let put (h : Host) := history.put h path (fun t p bs => t.updateFile p (change bs)) text n
    (put h).1.Beside a content lines (put k).1 ∧ (put k).2 = (put h).2 := by
  have written (bs : Bytes) := (b.files.updateFile avoids (change bs)).cases
  dsimp only [put]
  split
  · next bs _ =>
      obtain ⟨t, u, t_updated, u_updated, after⟩ | ⟨e, t_refused, u_refused⟩ := written bs
      · rw [t_updated, u_updated]
        exact ⟨⟨after, b.journal⟩, rfl⟩
      · rw [t_refused, u_refused]
        exact ⟨b.log .warning .history _, rfl⟩
  · obtain ⟨t, u, t_updated, u_updated, after⟩ | ⟨e, t_refused, u_refused⟩ := written []
    · rw [t_updated, u_updated]
      exact ⟨⟨after, b.journal⟩, rfl⟩
    · rw [t_refused, u_refused]
      exact ⟨b.log .warning .history _, rfl⟩

theorem store_beside (history : History) (b : h.Beside a content lines k)
    (avoids : ∀ path ∈ history.path, path.Avoids a) (text : Text.Raw) :
    (history.store h text).1.Beside a content lines (history.store k text).1 ∧
      (history.store k text).2 = (history.store h text).2 := by
  unfold store
  split
  · exact ⟨b, rfl⟩
  · next path kept =>
      have path_avoids := avoids path kept
      have made := b.files.makeDirectories path.parent
      revert made
      rcases h.files.makeDirectories path.parent with ⟨t, failed⟩
      rcases k.files.makeDirectories path.parent with ⟨u, failed'⟩
      rintro ⟨files, same⟩
      obtain rfl : failed' = failed := same
      have reached : Host.Beside a content lines { h with files := t } { k with files := u } :=
        ⟨files, b.journal⟩
      cases failed' with
      | some e => exact ⟨reached.log .warning .history _, rfl⟩
      | none =>
          dsimp only
          split
          · exact history.put_beside reached path_avoids (fun new _ => new) _ _
          · exact history.put_beside reached path_avoids (fun new old => old ++ new) _ _

theorem append_beside (history : History) (b : h.Beside a content lines k)
    (avoids : ∀ path ∈ history.path, path.Avoids a) (line : Text.Raw) :
    (history.append h line).1.Beside a content lines (history.append k line).1 ∧
      (history.append k line).2 = (history.append h line).2 := by
  unfold append
  split
  · exact ⟨b, rfl⟩
  · next entries remembered => exact store_beside { history with entries } b avoids _

end History

/-- The lines of a console are not kept in the file that is set aside. -/
def Console.Spares (a : Option Aside) (c : Console) : Prop :=
  ∀ history ∈ c.history, ∀ path ∈ history.path, path.Avoids a

/-- The bytes of a stream do not come from the file that is set aside. -/
def Source.Spares (a : Option Aside) : Source → Prop
  | .bytes _ => True
  | .file place => ∀ x ∈ a, ¬x.held place.file

namespace Feed

mutual

/-- No source of lines uses the file that is set aside. -/
def Spares (a : Option Aside) : Feed → Prop
  | .stream s => s.source.Spares a
  | .console c => c.Spares a
  | .chain feeds => AllSpare a feeds

def AllSpare (a : Option Aside) : List Feed → Prop
  | [] => True
  | feed :: rest => feed.Spares a ∧ AllSpare a rest

end

mutual

theorem spares_none : ∀ feed : Feed, feed.Spares none
  | .stream s => by
      rw [Spares]
      cases s.source <;> simp [Source.Spares]
  | .console c => by
      rw [Spares]
      exact fun _ _ path _ => path.spares_none.1
  | .chain feeds => by
      rw [Spares]
      exact allSpare_none feeds

theorem allSpare_none : ∀ feeds : List Feed, AllSpare none feeds
  | [] => trivial
  | feed :: rest => ⟨spares_none feed, allSpare_none rest⟩

end

end Feed

namespace Console

variable {c : Console}

theorem keep_beside (b : h.Beside a content lines k) (spares : c.Spares a) (text : String) :
    (c.keep h text).Beside a content lines (c.keep k text) := by
  unfold keep
  cases kept : c.history with
  | none => exact b
  | some history => exact (history.append_beside b (spares history kept) _).1

theorem remember_beside (b : h.Beside a content lines k) (spares : c.Spares a) (text : String) :
    c.remember k text = c.remember h text ∧ (c.remember h text).Spares a := by
  constructor
  · refine Console.ext rfl rfl ?_
    simp only [remember]
    cases kept : c.history with
    | none => rfl
    | some history =>
        obtain ⟨-, same⟩ := history.append_beside b (spares history kept) (Text.Raw.ofString text)
        rw [Option.map_some, Option.map_some, same]
  · intro later is_later
    obtain ⟨history, kept, rfl⟩ := Option.map_eq_some_iff.mp is_later
    rw [History.path_append]
    exact spares history kept

theorem nextLine_beside (b : h.Beside a content lines k) (spares : c.Spares a) :
    (c.nextLine h).2.2.Beside a content lines (c.nextLine k).2.2 ∧
      (c.nextLine k).1 = (c.nextLine h).1 ∧ (c.nextLine k).2.1 = (c.nextLine h).2.1 ∧
      (c.nextLine h).2.1.Spares a := by
  unfold nextLine
  rcases c.editor.edit c.keys with ⟨_ | text, keys⟩
  · exact ⟨b.log _ _ _, rfl, rfl, spares⟩
  · obtain ⟨same, later⟩ := remember_beside (c := { c with keys }) b spares text
    exact ⟨keep_beside b spares text, rfl, same, later⟩

end Console

namespace TextStream

variable {t u : FileTree}

theorem source_next_aside {s : Source} (same : t.SameBut a content u) (spares : s.Spares a) :
    s.next u = s.next t ∧ (s.next t).2.Spares a := by
  cases s with
  | bytes rest => exact ⟨rfl, trivial⟩
  | file place =>
      unfold Source.next
      dsimp only
      rw [same.readAt spares]
      exact ⟨rfl, spares⟩

theorem source_close (s : TextStream) : s.close.2.source = s.source := by
  unfold close
  split
  · rfl
  · dsimp only
    split <;> rfl

theorem fill_aside {s : TextStream} (same : t.SameBut a content u) (spares : s.source.Spares a) :
    s.fill u = s.fill t ∧ (s.fill t).2.source.Spares a := by
  fun_induction fill s t with
  | case1 s block ended =>
      obtain ⟨next, -⟩ := source_next_aside same spares
      rw [fill, next, if_pos ended]
      exact ⟨rfl, by rw [source_close]; exact spares⟩
  | case2 s block source begun failure fed =>
      obtain ⟨next, kept⟩ := source_next_aside same spares
      rw [fill, next, if_neg begun]
      simp only [block] at fed
      rw [fed]
      exact ⟨rfl, kept⟩
  | case3 s block source begun text decoder fed s' short ih =>
      obtain ⟨next, kept⟩ := source_next_aside same spares
      have ih := ih kept
      rw [fill, next, if_neg begun]
      simp only [block] at fed
      rw [fed]
      dsimp only
      rw [if_pos short]
      exact ih
  | case4 s block source begun text decoder fed s' ready =>
      obtain ⟨next, kept⟩ := source_next_aside same spares
      rw [fill, next, if_neg begun]
      simp only [block] at fed
      rw [fed]
      dsimp only
      rw [if_neg ready]
      exact ⟨rfl, kept⟩

theorem source_take (s : TextStream) : s.take.2.source = s.source := by
  unfold take
  split <;> rfl

theorem nextLine_aside {s : TextStream} (same : t.SameBut a content u)
    (spares : s.source.Spares a) :
    s.nextLine u = s.nextLine t ∧ (s.nextLine t).2.source.Spares a := by
  obtain ⟨filled, kept⟩ := fill_aside same spares
  unfold nextLine
  rw [filled]
  refine ⟨rfl, ?_⟩
  split
  · revert kept
    rcases s.fill t with ⟨_ | error, s'⟩
    · intro kept
      rw [source_take]
      exact kept
    · exact id
  · rw [source_take]
    exact spares

end TextStream

namespace Feed

mutual

theorem nextLine_beside : ∀ {feed : Feed} {h k : Host}, h.Beside a content lines k →
    feed.Spares a →
    (feed.nextLine h).2.2.Beside a content lines (feed.nextLine k).2.2 ∧
      (feed.nextLine k).1 = (feed.nextLine h).1 ∧
      (feed.nextLine k).2.1 = (feed.nextLine h).2.1 ∧ (feed.nextLine h).2.1.Spares a
  | .stream s, h, k, b, spares => by
      obtain ⟨same, kept⟩ := TextStream.nextLine_aside b.files spares
      simp only [nextLine, same, Spares]
      exact ⟨b, trivial, trivial, kept⟩
  | .console c, h, k, b, spares => by
      obtain ⟨after, reading, next, kept⟩ := Console.nextLine_beside b spares
      simp only [nextLine, Spares]
      exact ⟨after, reading, by rw [next], kept⟩
  | .chain feeds, h, k, b, spares => by
      obtain ⟨after, reading, next, kept⟩ := readFirst_beside b spares
      simp only [nextLine, Spares]
      exact ⟨after, reading, by rw [next], kept⟩

theorem readFirst_beside : ∀ {feeds : List Feed} {h k : Host}, h.Beside a content lines k →
    AllSpare a feeds →
    (readFirst feeds h).2.2.Beside a content lines (readFirst feeds k).2.2 ∧
      (readFirst feeds k).1 = (readFirst feeds h).1 ∧
      (readFirst feeds k).2.1 = (readFirst feeds h).2.1 ∧ AllSpare a (readFirst feeds h).2.1
  | [], h, k, b, spares => by
      simp only [readFirst_nil]
      exact ⟨b, trivial, trivial, spares⟩
  | feed :: rest, h, k, b, spares => by
      obtain ⟨first, others⟩ : feed.Spares a ∧ AllSpare a rest := spares
      have read := nextLine_beside b first
      rw [readFirst, readFirst]
      revert read
      rcases feed.nextLine h with ⟨reading, next, h'⟩
      rcases feed.nextLine k with ⟨reading', next', k'⟩
      rintro ⟨after, same, same_next, kept⟩
      obtain rfl : reading' = reading := same
      obtain rfl : next' = next := same_next
      cases reading' with
      | closed => exact readFirst_beside after others
      | line text | failed e | interrupted => exact ⟨after, rfl, rfl, kept, others⟩

end

end Feed

private theorem reads_beside {feed next : Feed} {d e : Debugger} {host : Host} {reading : Reading}
    (b : d.Beside a content lines e) (spares : feed.Spares a)
    (reads : feed.nextLine d.host = (reading, next, host)) :
    ∃ host', feed.nextLine e.host = (reading, next, host') ∧ next.Spares a ∧
      ({ d with host } : Debugger).Beside a content lines { e with host := host' } := by
  obtain ⟨e_host, rfl, beside⟩ := b
  obtain ⟨after, same, same_next, kept⟩ := Feed.nextLine_beside beside spares
  rw [reads] at after same same_next kept
  refine ⟨(feed.nextLine e_host).2.2, ?_, kept, _, rfl, after⟩
  exact Prod.ext same (Prod.ext same_next rfl)

/-- Two searches for the guest's next line that end alike, the second one beside a trace. -/
structure AwaitedBeside (a : Option Aside) (content : Bytes) (lines : List String)
    (r r' : Feed × Debugger × GuestLine) : Prop where
  debugger : r.2.1.Beside a content lines r'.2.1
  feed : r'.1 = r.1
  line : r'.2.2 = r.2.2
  spares : r.2.1.Spares a
  feed_spares : r.1.Spares a

theorem Awaits.beside {feed : Feed} {d e : Debugger} {calls : List Call}
    {result : Feed × Debugger × GuestLine} (h : Awaits feed d calls result)
    (b : d.Beside a content lines e) (spares : d.Spares a) (feed_spares : feed.Spares a) :
    AwaitedBeside a content lines result (awaitLine feed e) := by
  induction h generalizing e with
  | closed reads | failed reads | interrupted reads =>
      obtain ⟨host', e_reads, next_spares, after⟩ := reads_beside b feed_spares reads
      rw [WordMachine.awaitLine_eq, e_reads]
      exact ⟨after, rfl, rfl, spares.of_setting rfl, next_spares⟩
  | line reads word =>
      obtain ⟨host', e_reads, next_spares, after⟩ := reads_beside b feed_spares reads
      rw [WordMachine.awaitLine_eq, e_reads]
      simp only [word]
      exact ⟨after, rfl, rfl, spares.of_setting rfl, next_spares⟩
  | @preempted feed next d host text c reads word asked before preempts =>
      obtain ⟨host', e_reads, next_spares, read⟩ := reads_beside b feed_spares reads
      have before_spares : c.before.Spares a := spares.of_setting (by rw [before]; rfl)
      have after := c.command.dispatch_beside (before ▸ read.mark false) before_spares text
      rw [← asked] at after
      have after_spares : c.after.Spares a := before_spares.of_setting c.setting_after
      rw [WordMachine.awaitLine_eq, e_reads]
      simp only [word]
      rw [← asked, if_pos (after.preempted.trans preempts)]
      exact ⟨after.mark false, rfl, rfl, after_spares.of_setting rfl, next_spares⟩
  | @command feed next d host text c calls result reads word asked before stays rest ih =>
      obtain ⟨host', e_reads, next_spares, read⟩ := reads_beside b feed_spares reads
      have before_spares : c.before.Spares a := spares.of_setting (by rw [before]; rfl)
      have after := c.command.dispatch_beside (before ▸ read.mark false) before_spares text
      rw [← asked] at after
      have after_spares : c.after.Spares a := before_spares.of_setting c.setting_after
      have goes_on := Bool.eq_false_iff.mp (after.preempted.trans stays)
      rw [WordMachine.awaitLine_eq, e_reads]
      simp only [word]
      rw [← asked, if_neg goes_on]
      exact ih after after_spares next_spares

/-- The search for the guest's next line runs the same commands and ends alike beside a trace. -/
theorem awaitLine_beside {feed : Feed} {d e : Debugger} (b : d.Beside a content lines e)
    (spares : d.Spares a) (feed_spares : feed.Spares a) :
    AwaitedBeside a content lines (awaitLine feed d) (awaitLine feed e) :=
  (awaits feed d).beside b spares feed_spares

end WordMachine
