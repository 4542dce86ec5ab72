import WordMachine.Proofs.FeedLines

/-!
# Chained feeds

A chain of feeds is read like one feed with the lines of all of them. Each feed has its turn: it is
read up to its end and never after that, and a feed that fails keeps its turn. So the readings of a
chain are those of its feeds, one feed after the other, with the ends left out. It makes no
difference whether feeds stand in a chain themselves or inside a chain that stands there.
-/

namespace WordMachine

/-- One reading, with the host before and after it. -/
structure Poll where
  before : Host
  reading : Reading
  after : Host

namespace Poll

/-- What a reading brings unless it is the end. -/
def brought? (a : Poll) : Option Reading :=
  if a.reading = .closed then none else some a.reading

/-- The readings of its feeds that a reading of a chain is made of. Those that bring the end of a
feed are passed, and the first other one is the answer. Without one the chain is at its end. -/
inductive MadeOf : Poll → List Poll → Prop where
  | none (h : Host) : MadeOf ⟨h, .closed, h⟩ []
  | answered {a : Poll} (goes_on : a.reading ≠ .closed) : MadeOf a [a]
  | passed {a c : Poll} {polls : List Poll} (ended : a.reading = .closed)
      (same : c.before = a.after) (rest : MadeOf c polls) :
      MadeOf { c with before := a.before } (a :: polls)

variable {c : Poll} {calls polls : List Poll} {logs : List (List Poll)}

theorem MadeOf.brought (made : MadeOf c polls) :
    polls.filterMap brought? = c.brought?.toList := by
  induction made with
  | none => rfl
  | answered goes_on => simp [brought?, goes_on]
  | @passed a c polls ended same rest ih =>
      rw [List.filterMap_cons_none (by simp [brought?, ended]), ih]
      rfl

theorem brought_of_madeOf (made : List.Forall₂ MadeOf calls logs) :
    calls.filterMap brought? = logs.flatten.filterMap brought? := by
  induction made with
  | nil => rfl
  | @cons c polls calls logs first rest ih =>
      rw [List.flatten_cons, List.filterMap_append, first.brought, ← ih]
      cases given : c.brought? <;> simp [given]

end Poll

namespace Feed

/-- Readings of one feed one after the other, whatever happens to the host between them, and the
feed that they leave. -/
inductive Reads : Feed → List Poll → Feed → Prop where
  | nil {feed : Feed} : Reads feed [] feed
  | cons {feed next last : Feed} {a : Poll} {later : List Poll}
      (reads : feed.nextLine a.before = (a.reading, next, a.after)) (rest : Reads next later last) :
      Reads feed (a :: later) last

/-- Readings of several feeds in turn, and the feeds that they leave. A feed has its turn until a
reading of it brings its end, and then drops out; the next one has its turn only then. -/
inductive InTurn : List Feed → List Poll → List Feed → Prop where
  | none : InTurn [] [] []
  | stays {feed next : Feed} {rest : List Feed} {own : List Poll} (reads : Reads feed own next)
      (goes_on : ∀ a ∈ own, a.reading ≠ .closed) : InTurn (feed :: rest) own (next :: rest)
  | passes {feed next : Feed} {rest left : List Feed} {own later : List Poll} {last : Poll}
      (reads : Reads feed (own ++ [last]) next) (goes_on : ∀ a ∈ own, a.reading ≠ .closed)
      (ended : last.reading = .closed) (others : InTurn rest later left) :
      InTurn (feed :: rest) (own ++ last :: later) left

variable {feed next last : Feed} {feeds rest left more : List Feed} {h h' : Host}
  {reading : Reading} {a : Poll} {front back calls polls later : List Poll}

theorem exists_reads (feed : Feed) (hosts : List Host) :
    ∃ calls last, Reads feed calls last ∧ calls.map Poll.before = hosts := by
  induction hosts generalizing feed with
  | nil => exact ⟨[], feed, .nil, rfl⟩
  | cons h hosts ih =>
      obtain ⟨calls, last, rest, met⟩ := ih (feed.nextLine h).2.1
      refine ⟨⟨h, (feed.nextLine h).1, (feed.nextLine h).2.2⟩ :: calls, last, .cons rfl rest, ?_⟩
      rw [List.map_cons, met]

theorem Reads.append (first : Reads feed front next) (rest : Reads next back last) :
    Reads feed (front ++ back) last := by
  induction first with
  | nil => exact rest
  | cons reads _ ih => exact .cons reads (ih rest)

theorem Reads.split (reads : Reads feed (front ++ back) last) :
    ∃ next, Reads feed front next ∧ Reads next back last := by
  induction front generalizing feed with
  | nil => exact ⟨feed, .nil, reads⟩
  | cons a front ih =>
      cases reads with
      | cons first rest =>
          obtain ⟨next, begun, goes_on⟩ := ih rest
          exact ⟨next, .cons first begun, goes_on⟩

theorem InTurn.refl (feeds : List Feed) : InTurn feeds [] feeds := by
  cases feeds with
  | nil => exact .none
  | cons feed rest => exact .stays .nil (List.forall_mem_nil _)

theorem InTurn.append (first : InTurn feeds front left) (second : InTurn left back more) :
    InTurn feeds (front ++ back) more := by
  induction first with
  | none => exact second
  | @stays feed next rest own reads goes_on =>
      -- the turn that the first readings have left open goes on with the second ones
      cases second with
      | @stays _ next' _ own' reads' goes_on' =>
          refine .stays (reads.append reads') ?_
          intro a mem
          exact (List.mem_append.mp mem).elim (goes_on a) (goes_on' a)
      | @passes _ next' _ _ own' later last reads' goes_on' ended others =>
          have both : ∀ a ∈ own ++ own', a.reading ≠ .closed := by
            intro a mem
            exact (List.mem_append.mp mem).elim (goes_on a) (goes_on' a)
          have whole := reads.append reads'
          rw [← List.append_assoc] at whole ⊢
          exact .passes whole both ended others
  | @passes feed next rest left own later last reads goes_on ended others ih =>
      rw [List.append_assoc, List.cons_append]
      exact .passes reads goes_on ended (ih second)

/-! ## One reading of a chain -/

/-- One reading of a chain reads its feeds in turn. -/
theorem readFirst_inTurn (feeds : List Feed) (h : Host) :
    ∃ polls, Poll.MadeOf ⟨h, (readFirst feeds h).1, (readFirst feeds h).2.2⟩ polls ∧
      InTurn feeds polls (readFirst feeds h).2.1 := by
  induction feeds, h using readFirst_induction with
  | none h =>
      rw [readFirst_nil]
      exact ⟨[], .none h, .none⟩
  | passes feed rest h next h' reads same ih =>
      obtain ⟨polls, made, turns⟩ := ih
      let a : Poll := ⟨h, .closed, h'⟩
      have own : Reads feed [a] next := .cons reads .nil
      have passes : InTurn (feed :: rest) ([] ++ a :: polls) (readFirst rest h').2.1 :=
        .passes own (List.forall_mem_nil _) rfl turns
      rw [same]
      exact ⟨a :: polls, .passed (a := a) rfl rfl made, passes⟩
  | answers feed rest h reading next h' goes_on reads same =>
      let a : Poll := ⟨h, reading, h'⟩
      have own : Reads feed [a] next := .cons reads .nil
      rw [same]
      refine ⟨[a], .answered goes_on, .stays own ?_⟩
      intro b mem
      obtain rfl := List.mem_singleton.mp mem
      exact goes_on

/-- A chain comes to its end only when none of its feeds is left. -/
theorem readFirst_closed (closed : (readFirst feeds h).1 = .closed) :
    (readFirst feeds h).2.1 = [] := by
  induction feeds, h using readFirst_induction with
  | none h => rw [readFirst_nil]
  | passes feed rest h next h' reads same ih =>
      rw [same] at closed ⊢
      exact ih closed
  | answers feed rest h reading next h' goes_on reads same =>
      rw [same] at closed
      exact absurd closed goes_on

/-- The feed that a chain's answer comes from stands first in it afterwards, as it was left. -/
theorem readFirst_answered (goes_on : (readFirst feeds h).1 ≠ .closed) :
    ∃ ended feed rest host next, feeds = ended ++ feed :: rest ∧
      feed.nextLine host = ((readFirst feeds h).1, next, (readFirst feeds h).2.2) ∧
      (readFirst feeds h).2.1 = next :: rest := by
  induction feeds, h using readFirst_induction with
  | none h =>
      rw [readFirst_nil] at goes_on
      exact absurd rfl goes_on
  | passes feed rest h next h' reads same ih =>
      rw [same] at goes_on ⊢
      obtain ⟨others, feed', rest', host, next', rfl, answers, left⟩ := ih goes_on
      exact ⟨feed :: others, feed', rest', host, next', rfl, answers, left⟩
  | answers feed rest h reading next h' goes_on' reads same =>
      rw [same]
      exact ⟨[], feed, rest, h, next, rfl, reads, rfl⟩

/-! ## Chains inside chains -/

mutual

/-- The feeds that are no chains, in the order in which a feed reads them. -/
def flat : Feed → List Feed
  | .stream s => [.stream s]
  | .console c => [.console c]
  | .chain feeds => flatAll feeds

def flatAll : List Feed → List Feed
  | [] => []
  | feed :: rest => feed.flat ++ flatAll rest

end

/-- Whatever stands behind some feeds, these are read as given and leave others in their place,
unless they are at their end: then what stands behind them is read. -/
def Flattens (feeds feeds' : List Feed) (h : Host) (reading : Reading) (h' : Host) : Prop :=
  ∀ more, readFirst (feeds ++ more) h =
    if reading = .closed then readFirst more h' else (reading, feeds' ++ more, h')

theorem flattens_leaf (reads : feed.nextLine h = (reading, next, h')) :
    Flattens [feed] [next] h reading h' := by
  intro more
  split
  · next ended =>
      subst ended
      exact readFirst_of_closed more reads
  · next goes_on => exact readFirst_of_goes_on more goes_on reads

theorem Flattens.append {feeds' : List Feed} (first : Flattens feeds feeds' h reading h')
    (goes_on : reading ≠ .closed) (rest : List Feed) :
    Flattens (feeds ++ rest) (feeds' ++ rest) h reading h' := by
  intro more
  rw [List.append_assoc, List.append_assoc, first, if_neg goes_on, if_neg goes_on]

mutual

theorem flattens_nextLine : ∀ (feed : Feed) (h : Host),
    Flattens feed.flat (feed.nextLine h).2.1.flat h (feed.nextLine h).1 (feed.nextLine h).2.2
  | .stream s, h => by
      rw [nextLine_stream]
      exact flattens_leaf (nextLine_stream s h)
  | .console c, h => by
      rw [nextLine_console]
      exact flattens_leaf (nextLine_console c h)
  | .chain feeds, h => by
      rw [nextLine_chain]
      exact flattens_readFirst feeds h

theorem flattens_readFirst : ∀ (feeds : List Feed) (h : Host),
    Flattens (flatAll feeds) (flatAll (readFirst feeds h).2.1) h (readFirst feeds h).1
      (readFirst feeds h).2.2
  | [], h => by
      intro more
      rw [readFirst_nil]
      rfl
  | feed :: rest, h => by
      have first := flattens_nextLine feed h
      rcases reads : feed.nextLine h with ⟨reading, next, h'⟩
      rw [reads] at first
      by_cases ended : reading = .closed
      · subst ended
        have others := flattens_readFirst rest h'
        rw [readFirst_of_closed rest reads]
        intro more
        rw [flatAll, List.append_assoc, first, if_pos rfl]
        exact others more
      · rw [readFirst_of_goes_on rest ended reads]
        exact first.append ended (flatAll rest)

end

/-- A chain reads as the chain of all the feeds in it that are no chains. -/
theorem readFirst_flatAll (feeds : List Feed) (h : Host) :
    readFirst (flatAll feeds) h =
      ((readFirst feeds h).1, flatAll (readFirst feeds h).2.1, (readFirst feeds h).2.2) := by
  have flattens := flattens_readFirst feeds h []
  rw [List.append_nil, List.append_nil, readFirst_nil] at flattens
  rw [flattens]
  by_cases ended : (readFirst feeds h).1 = .closed
  · rw [if_pos ended, readFirst_closed ended, ended]
    rfl
  · rw [if_neg ended]

/-! ## Successive readings of a chain -/

/-- A chain remains one, and its first reading is one of its feeds. -/
theorem Reads.of_chain (reads : Reads (.chain feeds) (a :: later) last) :
    a = ⟨a.before, (readFirst feeds a.before).1, (readFirst feeds a.before).2.2⟩ ∧
      Reads (.chain (readFirst feeds a.before).2.1) later last := by
  cases reads with
  | cons first rest =>
      rw [nextLine_chain] at first
      injection first with reading others
      injection others with next after
      refine ⟨?_, next ▸ rest⟩
      rw [reading, after]

theorem Reads.exists_chain (reads : Reads (.chain feeds) calls last) :
    ∃ left, last = .chain left := by
  induction calls generalizing feeds with
  | nil =>
      cases reads
      exact ⟨_, rfl⟩
  | cons a later ih => exact ih reads.of_chain.2

/-- Readings of a chain read its feeds in turn. -/
theorem Reads.inTurn (reads : Reads (.chain feeds) calls (.chain left)) :
    ∃ logs, List.Forall₂ Poll.MadeOf calls logs ∧ InTurn feeds logs.flatten left := by
  induction calls generalizing feeds with
  | nil =>
      cases reads
      exact ⟨[], .nil, .refl _⟩
  | cons a later ih =>
      obtain ⟨is, rest⟩ := reads.of_chain
      obtain ⟨polls, made, first⟩ := readFirst_inTurn feeds a.before
      obtain ⟨logs, all, turns⟩ := ih rest
      rw [← is] at made
      exact ⟨polls :: logs, .cons made all, first.append turns⟩

theorem Reads.flattened (reads : Reads (.chain feeds) calls (.chain left)) :
    Reads (.chain (flatAll feeds)) calls (.chain (flatAll left)) := by
  induction calls generalizing feeds with
  | nil =>
      cases reads
      exact .nil
  | cons a later ih =>
      obtain ⟨is, rest⟩ := reads.of_chain
      refine .cons ?_ (ih rest)
      rw [nextLine_chain, readFirst_flatAll]
      rw [Poll.mk.injEq] at is
      rw [← is.2.1, ← is.2.2]

/-- A chain without feeds only closes, and does nothing to the host. -/
theorem Reads.of_empty (reads : Reads (.chain []) calls (.chain left)) :
    left = [] ∧ ∀ a ∈ calls, a.reading = .closed ∧ a.after = a.before := by
  induction calls with
  | nil =>
      cases reads
      exact ⟨rfl, List.forall_mem_nil _⟩
  | cons a later ih =>
      obtain ⟨is, rest⟩ := reads.of_chain
      rw [readFirst_nil] at is rest
      obtain ⟨nothing, closed⟩ := ih rest
      refine ⟨nothing, List.forall_mem_cons.mpr ⟨?_, closed⟩⟩
      rw [is]
      exact ⟨rfl, rfl⟩

/-- Once a chain has come to its end, it stays there. -/
theorem Reads.closed (reads : Reads (.chain feeds) (front ++ a :: back) (.chain left))
    (ended : a.reading = .closed) :
    left = [] ∧ ∀ b ∈ back, b.reading = .closed ∧ b.after = b.before := by
  obtain ⟨next, begun, goes_on⟩ := reads.split
  obtain ⟨feeds', rfl⟩ := begun.exists_chain
  obtain ⟨is, rest⟩ := goes_on.of_chain
  have none_left : (readFirst feeds' a.before).2.1 = [] := by
    apply readFirst_closed
    rw [is] at ended
    exact ended
  rw [none_left] at rest
  exact rest.of_empty

/-- The feed that answers a reading of a chain is the first of those that remain. -/
theorem Reads.answered (reads : Reads (.chain feeds) (front ++ a :: back) (.chain left))
    (goes_on : a.reading ≠ .closed) :
    ∃ ended feed rest host next, Reads (.chain feeds) front (.chain (ended ++ feed :: rest)) ∧
      feed.nextLine host = (a.reading, next, a.after) ∧
      Reads (.chain feeds) (front ++ [a]) (.chain (next :: rest)) := by
  obtain ⟨last, begun, later⟩ := reads.split
  obtain ⟨feeds', rfl⟩ := begun.exists_chain
  obtain ⟨is, -⟩ := later.of_chain
  have answers : (readFirst feeds' a.before).1 ≠ .closed := by
    rw [is] at goes_on
    exact goes_on
  obtain ⟨ended, feed, rest, host, next, rfl, answer, remains⟩ := readFirst_answered answers
  refine ⟨ended, feed, rest, host, next, begun, ?_, begun.append (.cons ?_ .nil)⟩
  · rw [answer, is]
  · rw [nextLine_chain, remains, is]

/-- The readings are made of readings of the feeds in turn, and bring what those bring: nothing is
lost, and nothing is brought twice. -/
def MadeInTurn (feeds : List Feed) (calls : List Poll) (left : List Feed) : Prop :=
  ∃ logs, List.Forall₂ Poll.MadeOf calls logs ∧ InTurn feeds logs.flatten left ∧
    calls.filterMap Poll.brought? = logs.flatten.filterMap Poll.brought?

theorem Reads.madeInTurn (reads : Reads (.chain feeds) calls (.chain left)) :
    MadeInTurn feeds calls left := by
  obtain ⟨logs, made, turns⟩ := reads.inTurn
  exact ⟨logs, made, turns, Poll.brought_of_madeOf made⟩

/-- What successive readings of a chain of feeds come to. -/
structure Concatenates (feeds : List Feed) (calls : List Poll) (left : List Feed) : Prop where
  turns : MadeInTurn feeds calls left
  /-- Feeds of chains inside the chain have their turns as if they stood in the chain itself. -/
  nested : MadeInTurn (flatAll feeds) calls (flatAll left)
  /-- A feed that answers is the first of those that remain, also when its answer is a failure. -/
  stays : ∀ front a back, calls = front ++ a :: back → a.reading ≠ .closed →
    ∃ ended feed rest host next, Reads (.chain feeds) front (.chain (ended ++ feed :: rest)) ∧
      feed.nextLine host = (a.reading, next, a.after) ∧
      Reads (.chain feeds) (front ++ [a]) (.chain (next :: rest))
  /-- Once no feed is left, the chain is at its end for good. -/
  closed : ∀ front a back, calls = front ++ a :: back → a.reading = .closed →
    left = [] ∧ ∀ b ∈ back, b.reading = .closed ∧ b.after = b.before

theorem Reads.concatenates (reads : Reads (.chain feeds) calls (.chain left)) :
    Concatenates feeds calls left where
  turns := reads.madeInTurn
  nested := reads.flattened.madeInTurn
  stays := by
    rintro front a back rfl goes_on
    exact reads.answered goes_on
  closed := by
    rintro front a back rfl ended
    exact reads.closed ended

variable {content : Handle → Bytes} {lines : List String}

/-- The lines of a chain come one by one, and then its end every time. -/
theorem Reads.readings (reads : Reads (.chain feeds) calls last)
    (yields : Yields content lines (.chain feeds))
    (kept : ∀ a ∈ calls, a.before.files.held = content) :
    calls.map Poll.reading =
      (lines.map Reading.line ++ List.replicate calls.length Reading.closed).take calls.length := by
  induction calls generalizing feeds lines with
  | nil => rfl
  | cons a later ih =>
      obtain ⟨same, others⟩ := List.forall_mem_cons.mp kept
      obtain ⟨is, rest⟩ := reads.of_chain
      cases lines with
      | nil =>
          have ends := yields a.before same
          rw [nextLine_chain] at ends
          rw [readFirst_closed ends] at rest
          obtain ⟨left, rfl⟩ := rest.exists_chain
          have closed : ∀ b ∈ a :: later, b.reading = .closed := by
            refine List.forall_mem_cons.mpr ⟨?_, fun b mem => (rest.of_empty.2 b mem).1⟩
            rw [is]
            exact ends
          rw [List.map_nil, List.nil_append, List.take_replicate, Nat.min_self]
          exact List.map_eq_replicate_iff.mpr closed
      | cons line lines =>
          obtain ⟨answers, more⟩ := yields a.before same
          rw [nextLine_chain] at answers more
          have first : a.reading = .line line := by
            rw [is]
            exact answers
          have enough : later.length ≤
              (lines.map Reading.line ++ List.replicate later.length Reading.closed).length := by
            rw [List.length_append, List.length_replicate]
            exact Nat.le_add_left _ _
          rw [List.map_cons, first, ih rest more others, List.map_cons, List.cons_append,
            List.length_cons, List.take_succ_cons, List.replicate_succ', ← List.append_assoc,
            List.take_append_of_le_length enough]

/-- However often a chain of feeds is read, and whatever happens to the host meanwhile, its readings
are those of its feeds, and of the feeds in chains among them, in turn. Each feed is read up to its
end and never again, the next one only then, and one that fails keeps its turn; behind the last one
the chain is at its end for good. So the lines of a chain are those of its feeds, one feed after
the other. -/
theorem chain_concatenates (feeds : List Feed) (hosts : List Host) :
    ∃ calls left, Reads (.chain feeds) calls (.chain left) ∧ calls.map Poll.before = hosts ∧
      Concatenates feeds calls left ∧
      ∀ content lines, Has content (.chain feeds) lines →
        (∀ h ∈ hosts, h.files.held = content) →
        calls.map Poll.reading =
          (lines.map Reading.line ++ List.replicate hosts.length Reading.closed).take
            hosts.length := by
  obtain ⟨calls, last, reads, met⟩ := exists_reads (.chain feeds) hosts
  obtain ⟨left, rfl⟩ := reads.exists_chain
  refine ⟨calls, left, reads, met, reads.concatenates, ?_⟩
  intro content lines has kept
  have length : calls.length = hosts.length := by
    rw [← met, List.length_map]
  have unchanged : ∀ a ∈ calls, a.before.files.held = content := by
    intro a mem
    apply kept
    rw [← met]
    exact List.mem_map_of_mem mem
  have readings := reads.readings has.yields unchanged
  rw [length] at readings
  exact readings

/-- Feeds without lines and with them, in chains among them too, with line ends of all kinds and
with none. -/
def assorted : List Feed :=
  [.stream (.ofText [] .closes),
    .stream (.ofText ("one".toList ++ ['\r'] ++ '\n' :: "two".toList) .closes),
    .chain [.chain [], .stream (.ofBytes [0x61, 0x0D, 0x62] .closes)],
    .stream (.ofText "last".toList .closes)]

theorem assorted_concatenates :
    ∃ calls left, Reads (.chain assorted) calls (.chain left) ∧ Concatenates assorted calls left ∧
      calls.map Poll.reading =
        [.line "one", .line "two", .line "a", .line "b", .line "last", .closed, .closed] := by
  have cut_two : Text.Cut ["one".toList ++ ['\r'], "two".toList]
      ("one".toList ++ ['\r'] ++ '\n' :: "two".toList) :=
    .feed (by decide) (.last (by decide) (by decide))
  have two : List.Forall₂ Text.Shorn ["one".toList ++ ['\r'], "two".toList]
      (["one", "two"].map String.toList) :=
    .cons .returned (.cons (.kept (by decide)) .nil)
  have cut_bytes : Text.Cut (["a", "b"].map String.toList) (Text.unifyNewlines ['a', '\r', 'b']) :=
    .feed (by decide) (.last (by decide) (by decide))
  have cut_last : Text.Cut ["last".toList] "last".toList := .last (by decide) (by decide)
  have last : List.Forall₂ Text.Shorn ["last".toList] (["last"].map String.toList) :=
    .cons (.kept (by decide)) .nil
  have inner : Has (fun _ => []) (.chain [.chain [], .stream (.ofBytes [0x61, 0x0D, 0x62] .closes)])
      ([] ++ (["a", "b"] ++ [])) :=
    .chain .none (.chain (.bytes rfl cut_bytes) .none)
  have has : Has (fun _ => []) (.chain assorted)
      ([] ++ (["one", "two"] ++ (([] ++ (["a", "b"] ++ [])) ++ (["last"] ++ [])))) :=
    .chain (.text .none .nil) (.chain (.text cut_two two)
      (.chain inner (.chain (.text cut_last last) .none)))
  obtain ⟨calls, left, reads, -, concatenates, readings⟩ :=
    chain_concatenates assorted (List.replicate 7 {})
  have kept : ∀ h ∈ List.replicate 7 ({} : Host), h.files.held = fun _ => [] := by
    intro h mem
    obtain rfl := List.eq_of_mem_replicate mem
    funext file
    simp [FileTree.held]
  exact ⟨calls, left, reads, concatenates, readings _ _ has kept⟩

end Feed

end WordMachine
