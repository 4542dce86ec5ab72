import WordMachine.Debugger.Command

/-!
# Arguments of commands

What is left of the numbers on a command line after the arguments were sorted: the first position
always gets its value, and every number that is read fits into sixteen bits.
-/

namespace WordMachine

namespace Arguments

/-- No argument reads like the marker before the marker itself, after which there are only
arguments. -/
inductive Marked : List Token → Prop where
  | nil : Marked []
  | marker (texts : List String) : Marked (.marker :: texts.map .argument)
  | argument {text : String} {rest : List Token} (plain : text ≠ "--") (h : Marked rest) :
      Marked (.argument text :: rest)
  | unknown {text : String} {rest : List Token} (h : Marked rest) : Marked (.unknown text :: rest)

variable {g : Grammar}

/-- Where there are no switches, a text is an argument or unknown. -/
theorem token_of_bare (bare : g.named = []) (text : String) :
    g.token text = .ok (.argument text) ∨ g.token text = .ok (.unknown text) := by
  have none_fits : g.candidates text = [] := by simp [Grammar.candidates, bare]
  unfold Grammar.token
  rw [bare, none_fits]
  split
  · exact .inl rfl
  · simp only [List.lookup_nil]
    split
    · exact .inl rfl
    · split
      · next found => cases found
      · split
        · exact .inl rfl
        · exact .inr rfl

theorem marked_of_tokens (bare : g.named = []) {argv : List String} {tokens : List Token}
    (sorted : g.tokens argv = .ok tokens) : Marked tokens := by
  induction argv generalizing tokens with
  | nil =>
      obtain rfl := Except.ok.inj sorted
      exact .nil
  | cons text argv ih =>
      unfold Grammar.tokens at sorted
      split at sorted
      · obtain rfl := Except.ok.inj sorted
        exact .marker argv
      · next plain =>
          cases rest : g.tokens argv with
          | error e =>
              rcases token_of_bare bare text with first | first <;>
                simp [first, rest, bind, Except.bind] at sorted
          | ok tokens' =>
              rcases token_of_bare bare text with first | first
              · obtain rfl : .argument text :: tokens' = tokens := by
                  simpa [first, rest, bind, Except.bind, pure, Except.pure] using sorted
                exact .argument plain (ih rest)
              · obtain rfl : .unknown text :: tokens' = tokens := by
                  simpa [first, rest, bind, Except.bind, pure, Except.pure] using sorted
                exact .unknown (ih rest)

/-- What was given stays given. -/
theorem prefix_given_parseFrom (g : Grammar) (tokens : List Token) (positions : List String)
    (given : List Given) (extras : List String) :
    given.reverse <+: (g.parseFrom tokens positions given extras).given := by
  fun_induction Grammar.parseFrom g tokens positions given extras with
  | case1 | case3 | case6 => exact List.prefix_refl _
  | case2 | case11 | case12 => assumption
  | case8 | case9 | case10 =>
      next ih => exact (List.reverse_prefix.mpr (List.suffix_cons _ _)).trans ih
  | case4 | case5 | case7 =>
      next ih =>
        refine (List.reverse_prefix.mpr ?_).trans ih
        exact (List.suffix_append _ _).trans (List.suffix_cons _ _)

theorem first_given {tokens : List Token} (marked : Marked tokens) {position : String}
    {positions extras left : List String}
    (filled : (g.parseFrom tokens (position :: positions) [] extras).outcome = .ok left) :
    ∃ text rest, (g.parseFrom tokens (position :: positions) [] extras).given =
      .position position (some text) :: rest := by
  have stays (tokens : List Token) (extras : List String) (first : String) :
      ∃ text rest, (g.parseFrom tokens positions [.position position (some first)] extras).given =
        .position position (some text) :: rest := by
    obtain ⟨rest, given⟩ := prefix_given_parseFrom g tokens positions
      [.position position (some first)] extras
    exact ⟨first, rest, given.symm⟩
  induction marked generalizing extras with
  | nil => simp [Grammar.parseFrom, Grammar.finish] at filled
  | marker texts =>
      cases texts with
      | nil => simp [Grammar.parseFrom, Grammar.finish] at filled
      | cons text texts =>
          simp only [List.map_cons, Grammar.parseFrom]
          exact stays _ _ text
  | @argument text rest plain h ih =>
      have kept : Grammar.unlessMarker text = some text := if_neg plain
      cases h with
      | marker texts =>
          simp only [Grammar.parseFrom]
          exact stays _ _ text
      | nil | argument | unknown =>
          rw [Grammar.parseFrom, kept]
          · exact stays _ _ text
          · simp
  | @unknown text rest h ih =>
      rw [Grammar.parseFrom] at filled ⊢
      exact ih filled

end Arguments

namespace Command

open Arguments

theorem readUnit_le {name text : String} {n : Nat} (read : readUnit name text = .ok n) :
    n ≤ 65535 := by
  unfold readUnit at read
  dsimp only at read
  split at read
  · cases read
  · split at read
    · cases read
    · split at read
      · cases read
      · next fits =>
          obtain rfl := Except.ok.inj read
          exact Nat.not_lt.mp fits

theorem readUnits_le {given : List Given} {units : List (Option Nat)}
    (read : readUnits given = .ok units) {n : Nat} (mem : some n ∈ units) : n ≤ 65535 := by
  fun_induction readUnits given generalizing units with
  | case1 =>
      obtain rfl := Except.ok.inj read
      cases mem
  | case2 name text rest ih =>
      cases first : readUnit name text with
      | error e => simp [first, bind, Except.bind] at read
      | ok m =>
          cases others : readUnits rest with
          | error e => simp [first, others, bind, Except.bind] at read
          | ok units' =>
              obtain rfl : some m :: units' = units := by
                simpa [first, others, bind, Except.bind, pure, Except.pure] using read
              rcases List.mem_cons.mp mem with same | later
              · obtain rfl := Option.some.inj same
                exact readUnit_le first
              · exact ih others later
  | case3 name rest ih =>
      cases others : readUnits rest with
      | error e => simp [others, bind, Except.bind] at read
      | ok units' =>
          obtain rfl : none :: units' = units := by
            simpa [others, bind, Except.bind, pure, Except.pure] using read
          exact ih others (by simpa using mem)
  | case4 | case5 => next ih => exact ih read mem

/-- An address is never lost: there is no marker in front of it that it could be taken for. -/
theorem head_units {argv : List String} {left : List String} {units : List (Option Nat)}
    (outcome : (setGrammar.parse argv).outcome = .ok left)
    (read : readUnits (setGrammar.parse argv).given = .ok units) :
    ∃ n, units.head? = some (some n) := by
  unfold Grammar.parse at outcome read
  cases sorted : setGrammar.tokens argv with
  | error e => simp [sorted] at outcome
  | ok tokens =>
      simp only [sorted] at outcome read
      obtain ⟨text, rest, given⟩ := first_given (marked_of_tokens rfl sorted) outcome
      have positions : setGrammar.positions = ["address", "value"] := rfl
      rw [positions, given, readUnits] at read
      cases first : readUnit "address" text with
      | error e => simp [first, bind, Except.bind] at read
      | ok n =>
          cases others : readUnits rest with
          | error e => simp [first, others, bind, Except.bind] at read
          | ok units' =>
              obtain rfl : some n :: units' = units := by
                simpa [first, others, bind, Except.bind, pure, Except.pure] using read
              exact ⟨n, rfl⟩

/-- The numbers that `set` works with: an address, which is never lost, and a value of sixteen
bits, unless it was lost. -/
theorem setArguments_eq_ok {argv : List String} {address value : Option Nat}
    (parsed : setArguments argv = .ok (address, value)) :
    address.isSome ∧ ∀ n, value = some n → n ≤ 65535 := by
  unfold setArguments at parsed
  cases units : readUnits (setGrammar.parse argv).given with
  | error e => simp [units, bind, Except.bind] at parsed
  | ok numbers =>
      cases outcome : (setGrammar.parse argv).outcome with
      | error e => simp [units, outcome, bind, Except.bind] at parsed
      | ok left =>
          cases left with
          | cons extra extras => simp [units, outcome, bind, Except.bind] at parsed
          | nil =>
              obtain ⟨rfl, rfl⟩ : numbers.head?.join = address ∧
                  (numbers.drop 1).head?.join = value := by
                simpa [units, outcome, bind, Except.bind, pure, Except.pure] using parsed
              constructor
              · obtain ⟨n, head⟩ := head_units outcome units
                simp [head]
              · intro n given
                have head : (numbers.drop 1).head? = some (some n) :=
                  Option.join_eq_some_iff.mp given
                exact readUnits_le units (List.mem_of_mem_drop (List.mem_of_mem_head? head))

end Command
end WordMachine
