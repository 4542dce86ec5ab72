import WordMachine.Proofs.CommandArguments
import WordMachine.Proofs.CommandEffect
import WordMachine.Proofs.CommandReport

/-!
# What `set` accepts

Two numbers in decimal digits, of whatever script: a cell and what it is to hold. A marker that
ends the switches may stand before, between or behind them, and is no number itself.
-/

namespace WordMachine

namespace Text

/-- A text of decimal digits, no more of them than a number may be written with, and the number that
it writes. -/
def Denotes (text : String) (n : Nat) : Prop :=
  ∃ ds, text.toList.mapM decimalValue? = some ds ∧ ds ≠ [] ∧ ds.length ≤ maxDigits ∧ n = ofDigits ds

theorem isSome_of_mapM {α β : Type} {f : α → Option β} {as : List α} {bs : List β}
    (all : as.mapM f = some bs) {a : α} (mem : a ∈ as) : (f a).isSome = true := by
  induction as generalizing bs with
  | nil => cases mem
  | cons head as ih =>
      cases first : f head with
      | none => simp [first] at all
      | some b =>
          cases later : as.mapM f with
          | none => simp [first, later] at all
          | some bs' =>
              rcases List.mem_cons.mp mem with rfl | mem
              · simp [first]
              · exact ih later mem

theorem isDigit_underscore : isDigit '_' = false := by decide +kernel

theorem isDigit_dash : isDigit '-' = false := by decide +kernel

/-- Where there are only digits, no underscores are skipped. -/
theorem digitValues?_of_isDigit {cs : List Char} (started : cs ≠ [])
    (digits : ∀ c ∈ cs, isDigit c = true) : digitValues? cs = cs.mapM decimalValue? := by
  induction cs with
  | nil => exact absurd rfl started
  | cons c cs ih =>
      cases cs with
      | nil => cases value : decimalValue? c <;> simp [digitValues?, value]
      | cons d cs =>
          have later := ih (List.cons_ne_nil d cs) fun e mem => digits e (List.mem_cons_of_mem c mem)
          have apart : d ≠ '_' := by
            rintro rfl
            have digit := digits '_' (by simp)
            rw [isDigit_underscore] at digit
            cases digit
          rw [digitValues?, later]
          · exact List.mapM_cons.symm
          · simp
          · rintro cs' same
            exact apart (List.cons.inj same).1

theorem Denotes.isDigit {text : String} {n : Nat} (denotes : Denotes text n) :
    text.toList ≠ [] ∧ ∀ c ∈ text.toList, Text.isDigit c = true := by
  obtain ⟨ds, values, some_digits, -, -⟩ := denotes
  constructor
  · intro nothing
    rw [nothing] at values
    exact some_digits (Option.some.inj values).symm
  · intro c mem
    rw [Text.isDigit, isSome_of_mapM values mem, Bool.true_or]

theorem Denotes.bare {text : String} {n : Nat} (denotes : Denotes text n) :
    text.startsWith "-" = false := by
  rw [String.startsWith_string_eq_false_iff]
  rintro ⟨rest, starts⟩
  have dash : '-' ∈ text.toList := by
    rw [← starts]
    simp
  have digit := denotes.isDigit.2 '-' dash
  rw [isDigit_dash] at digit
  cases digit

theorem Denotes.unique {text : String} {n m : Nat} (first : Denotes text n)
    (second : Denotes text m) : n = m := by
  obtain ⟨ds, values, -, -, rfl⟩ := first
  obtain ⟨ds', values', -, -, rfl⟩ := second
  rw [Option.some.inj (values.symm.trans values')]

/-- The number is the one that a text of digits is read as. -/
theorem readNat?_eq_some_iff {text : String} {n : Nat} (started : text.toList ≠ [])
    (digits : ∀ c ∈ text.toList, Text.isDigit c = true) :
    readNat? text.toList = some n ↔ Denotes text n := by
  unfold readNat? Denotes
  rw [digitValues?_of_isDigit started digits]
  cases values : text.toList.mapM decimalValue? with
  | none => simp
  | some ds =>
      have some_digits : ds ≠ [] := by
        rintro rfl
        obtain ⟨c, cs, list⟩ := List.exists_cons_of_ne_nil started
        rw [list] at values
        cases first : decimalValue? c with
        | none => simp [first] at values
        | some v => cases later : cs.mapM decimalValue? <;> simp [first, later] at values
      simp only [Option.bind_eq_bind, Option.bind_some, Option.some.injEq,
        exists_eq_left', ne_eq, some_digits, not_false_eq_true, true_and]
      rw [Option.ite_none_right_eq_some, Option.some.injEq, eq_comm]

end Text

namespace Arguments

variable {g : Grammar}

/-- What an argument was written as. -/
def Token.text : Token → String
  | .argument text | .unknown text => text
  | .marker => "--"
  | .switch _ name _ => name

theorem texts_of_tokens (bare : g.named = []) {argv : List String} {tokens : List Token}
    (sorted : g.tokens argv = .ok tokens) : tokens.map Token.text = argv := by
  induction argv generalizing tokens with
  | nil =>
      obtain rfl := Except.ok.inj sorted
      rfl
  | cons text argv ih =>
      unfold Grammar.tokens at sorted
      split at sorted
      · next same =>
          obtain rfl := Except.ok.inj sorted
          simp [same, Token.text, Function.comp_def]
      · cases rest : g.tokens argv with
        | error e =>
            rcases token_of_bare bare text with first | first <;>
              simp [first, rest, bind, Except.bind] at sorted
        | ok tokens' =>
            rcases token_of_bare bare text with first | first <;>
              simp only [first, rest, bind, Except.bind, pure, Except.pure, Except.ok.injEq]
                at sorted <;>
              rw [← sorted, List.map_cons, ih rest] <;> rfl

theorem finish_eq_ok {positions extras left : List String} {given : List Given}
    (done : (Grammar.finish positions given extras).outcome = .ok left) :
    positions = [] ∧ left = extras.reverse := by
  cases positions with
  | nil => exact ⟨rfl, (Except.ok.inj done).symm⟩
  | cons position positions => cases done

/-- What is left over stays left over. -/
theorem prefix_left_parseFrom (g : Grammar) (tokens : List Token) (positions : List String)
    (given : List Given) (extras : List String) {left : List String}
    (parsed : (g.parseFrom tokens positions given extras).outcome = .ok left) :
    extras.reverse <+: left := by
  fun_induction Grammar.parseFrom g tokens positions given extras with
  | case1 => exact (finish_eq_ok parsed).2 ▸ List.prefix_refl _
  | case3 | case6 => cases parsed
  | case4 | case5 | case7 | case8 | case9 | case10 => next ih => exact ih parsed
  | case2 | case11 | case12 =>
      next ih => exact (List.reverse_prefix.mpr (List.suffix_cons _ _)).trans (ih parsed)

theorem not_parsed_of_left {tokens : List Token} {positions : List String} {given : List Given}
    {text : String} {extras : List String} :
    (g.parseFrom tokens positions given (text :: extras)).outcome ≠ .ok [] := by
  intro parsed
  have kept := prefix_left_parseFrom g _ _ _ _ parsed
  simp at kept

/-- What fills the position at hand: a text, perhaps with a marker beside it. The value is the text
unless that reads like the marker itself; the rest is for the next positions. -/
inductive Filling : List Token → String → Option String → List Token → Prop where
  | behind (text : String) (rest : List Token) :
      Filling (.marker :: .argument text :: rest) text (some text) rest
  | before (text : String) (rest : List Token) :
      Filling (.argument text :: .marker :: rest) text (some text) rest
  | alone (text : String) {rest : List Token} (apart : rest.head? ≠ some .marker) :
      Filling (.argument text :: rest) text (Grammar.unlessMarker text) rest

/-- Tokens among which there are no switches. -/
def Bare (tokens : List Token) : Prop := ∀ s name tied, .switch s name tied ∉ tokens

theorem bare_of_marked {tokens : List Token} (marked : Marked tokens) : Bare tokens := by
  intro s name tied
  induction marked with
  | nil => simp
  | marker texts => simp
  | argument plain h ih => simpa using ih
  | unknown h ih => simpa using ih

theorem nil_of_parsed {tokens : List Token} {given : List Given} (bare : Bare tokens)
    (parsed : (g.parseFrom tokens [] given []).outcome = .ok []) : tokens = [] := by
  cases tokens with
  | nil => rfl
  | cons token tokens =>
      cases token with
      | switch s name tied => exact absurd List.mem_cons_self (bare s name tied)
      | argument | unknown | marker =>
          rw [Grammar.parseFrom] at parsed
          · exact absurd parsed not_parsed_of_left
          all_goals simp

/-- Where nothing is left over in the end, something fills each position. -/
theorem filling_of_parsed {tokens : List Token} {position : String} {positions : List String}
    {given : List Given} (bare : Bare tokens)
    (parsed : (g.parseFrom tokens (position :: positions) given []).outcome = .ok []) :
    ∃ text value rest, Filling tokens text value rest ∧
      g.parseFrom tokens (position :: positions) given [] =
        g.parseFrom rest positions (.position position value :: given) [] := by
  match tokens with
  | [] => cases parsed
  | .switch s name tied :: _ => exact absurd List.mem_cons_self (bare s name tied)
  | .unknown text :: rest =>
      rw [Grammar.parseFrom] at parsed
      exact absurd parsed not_parsed_of_left
  | .marker :: .argument text :: rest =>
      exact ⟨text, _, rest, .behind text rest, by simp only [Grammar.parseFrom]⟩
  | [.marker] | .marker :: .marker :: _ | .marker :: .unknown _ :: _
  | .marker :: .switch _ _ _ :: _ =>
      rw [Grammar.parseFrom] at parsed
      · exact absurd parsed not_parsed_of_left
      all_goals simp
  | .argument text :: .marker :: rest =>
      exact ⟨text, _, rest, .before text rest, by simp only [Grammar.parseFrom]⟩
  | .argument text :: .switch s name tied :: _ => exact absurd (by simp) (bare s name tied)
  | [.argument text] =>
      exact ⟨text, _, [], .alone text (by simp), by simp only [Grammar.parseFrom]⟩
  | .argument text :: .argument next :: rest | .argument text :: .unknown next :: rest =>
      exact ⟨text, _, _, .alone text (by simp), by simp only [Grammar.parseFrom]⟩

theorem Filling.bare {tokens rest : List Token} {text : String} {value : Option String}
    (filling : Filling tokens text value rest) (bare : Bare tokens) : Bare rest := by
  intro s name tied mem
  refine bare s name tied ?_
  cases filling <;> simp [mem]

theorem marker_not_mem {rest : List Token} (marked : Marked (.marker :: rest)) : .marker ∉ rest := by
  cases marked
  simp

theorem marked_cons_argument {text : String} {rest : List Token}
    (marked : Marked (.argument text :: rest)) : text ≠ "--" ∧ Marked rest := by
  cases marked with
  | argument plain h => exact ⟨plain, h⟩

/-- Two positions that are filled with nothing left over: the two texts are what the arguments are
without their marker, and the second alone can be lost. -/
theorem pair_of_fillings {tokens rest : List Token} {first second : String}
    {value value' : Option String} (marked : Marked tokens)
    (filling : Filling tokens first value rest) (filling' : Filling rest second value' []) :
    (tokens.map Token.text).erase "--" = [first, second] ∧ value = some first ∧
      value' = Grammar.unlessMarker second := by
  cases filling with
  | behind =>
      have once := marker_not_mem marked
      cases filling' with
      | behind | before => simp at once
      | alone => exact ⟨by simp [Token.text], rfl, rfl⟩
  | before =>
      obtain ⟨plain, marked⟩ := marked_cons_argument marked
      have once := marker_not_mem marked
      cases filling' with
      | behind | before => simp at once
      | alone => exact ⟨by simp [Token.text, plain], rfl, rfl⟩
  | alone _ apart =>
      obtain ⟨plain, marked⟩ := marked_cons_argument marked
      have kept : Grammar.unlessMarker first = some first := if_neg plain
      cases filling' with
      | behind => exact absurd rfl apart
      | before =>
          obtain ⟨plain', -⟩ := marked_cons_argument marked
          exact ⟨by simp [Token.text, plain, plain'], kept, (if_neg plain').symm⟩
      | alone =>
          obtain ⟨plain', -⟩ := marked_cons_argument marked
          exact ⟨by simp [Token.text, plain, plain'], kept, rfl⟩

variable {position position' : String}

/-- The two texts of an argument list that fills two positions and has nothing left over. -/
theorem pair_of_parsed (bare : g.named = []) (two : g.positions = [position, position'])
    {argv : List String} (parsed : (g.parse argv).outcome = .ok []) :
    ∃ first second, argv.erase "--" = [first, second] ∧
      (g.parse argv).given = [.position position (some first),
        .position position' (Grammar.unlessMarker second)] := by
  unfold Grammar.parse at parsed ⊢
  cases sorted : g.tokens argv with
  | error e => simp [sorted] at parsed
  | ok tokens =>
      simp only [sorted, two] at parsed ⊢
      have marked := marked_of_tokens bare sorted
      obtain ⟨first, value, rest, filling, goes⟩ := filling_of_parsed (bare_of_marked marked) parsed
      rw [goes] at parsed ⊢
      have bare' := filling.bare (bare_of_marked marked)
      obtain ⟨second, value', rest', filling', goes'⟩ := filling_of_parsed bare' parsed
      rw [goes'] at parsed ⊢
      obtain rfl := nil_of_parsed (filling'.bare bare') parsed
      obtain ⟨texts, rfl, rfl⟩ := pair_of_fillings marked filling filling'
      rw [texts_of_tokens bare sorted] at texts
      exact ⟨first, second, texts, by simp [Grammar.parseFrom, Grammar.finish]⟩

theorem shapes_of_erase {marker first second : String} {argv : List String}
    (texts : argv.erase marker = [first, second]) :
    argv = [first, second] ∨ argv = [marker, first, second] ∨ argv = [first, marker, second] ∨
      argv = [first, second, marker] := by
  by_cases mem : marker ∈ argv
  · obtain ⟨front, back, -, rfl, rest⟩ := List.exists_erase_eq mem
    rw [rest] at texts
    match front with
    | [] => simp_all
    | [_] => simp_all
    | [_, _] => simp_all
    | _ :: _ :: _ :: _ => simp at texts
  · exact .inl ((List.erase_of_not_mem mem).symm.trans texts)

/-- Two texts that do not read like switches are parsed, wherever the marker stands. -/
theorem parse_of_pair (two : g.positions = [position, position']) {argv : List String}
    {first second : String} (texts : argv.erase "--" = [first, second])
    (plain : first.startsWith "-" = false) (plain' : second.startsWith "-" = false) :
    g.parse argv =
      { given := [.position position (some first), .position position' (some second)]
        outcome := .ok [] } := by
  have unmarked {text : String} (plain : text.startsWith "-" = false) : text ≠ "--" := by
    rintro rfl
    exact absurd plain (by decide +kernel)
  have token {text : String} (plain : text.startsWith "-" = false) :
      g.token text = .ok (.argument text) := by
    rw [Grammar.token, plain]
    rfl
  have kept {text : String} (plain : text.startsWith "-" = false) :
      Grammar.unlessMarker text = some text := if_neg (unmarked plain)
  unfold Grammar.parse
  rcases shapes_of_erase texts with rfl | rfl | rfl | rfl <;>
    simp [Grammar.tokens, unmarked, token, plain, plain', two, kept, Grammar.parseFrom,
      Grammar.finish, bind, Except.bind, pure, Except.pure]

end Arguments

namespace Command

open Arguments

theorem readUnit_eq_ok_iff {name text : String} {n : Nat} :
    readUnit name text = .ok n ↔ Text.Denotes text n ∧ n ≤ 65535 := by
  by_cases plain : text.toList ≠ [] ∧ ∀ c ∈ text.toList, Text.isDigit c = true
  · obtain ⟨started, digits⟩ := plain
    have sorted : (text.toList.isEmpty || !text.toList.all Text.isDigit) = false := by
      simp [started, List.all_eq_true.mpr digits]
    rw [← Text.readNat?_eq_some_iff started digits]
    unfold readUnit
    simp only [sorted]
    cases Text.readNat? text.toList with
    | none => simp
    | some m =>
        by_cases fits : 65535 < m <;> simp [fits]
        all_goals omega
  · have sorted : (text.toList.isEmpty || !text.toList.all Text.isDigit) = true := by
      by_cases started : text.toList = []
      · simp [started]
      · simp_all
    constructor
    · intro read
      unfold readUnit at read
      simp [sorted] at read
    · rintro ⟨denotes, -⟩
      exact absurd denotes.isDigit plain

/-- An argument list that asks for a number to be stored: with its first marker taken out, it is the
address of a cell and a value of sixteen bits. -/
def Asks (argv : List String) (address value : Nat) : Prop :=
  ∃ first second, argv.erase "--" = [first, second] ∧ Text.Denotes first address ∧
    Text.Denotes second value ∧ address ≤ 32775 ∧ value ≤ 65535

/-- An argument list whose value is lost: a marker stands in its place, and another one before it. -/
def Loses (argv : List String) : Prop :=
  ∃ first address, argv.erase "--" = [first, "--"] ∧ Text.Denotes first address ∧ address ≤ 32775

theorem setArguments_of_asks {argv : List String} {address value : Nat}
    (asks : Asks argv address value) : setArguments argv = .ok (some address, some value) := by
  obtain ⟨first, second, texts, denotes, denotes', inside, fits⟩ := asks
  have parsed := parse_of_pair (g := setGrammar) rfl texts denotes.bare denotes'.bare
  have read : readUnit "address" first = .ok address :=
    readUnit_eq_ok_iff.mpr ⟨denotes, by omega⟩
  have read' : readUnit "value" second = .ok value := readUnit_eq_ok_iff.mpr ⟨denotes', fits⟩
  rw [setArguments, parsed]
  simp only [readUnits, read, read']
  rfl

/-- The arguments that are taken at all. -/
theorem pair_of_setArguments {argv : List String} {address value : Option Nat}
    (taken : setArguments argv = .ok (address, value)) :
    ∃ first second n, argv.erase "--" = [first, second] ∧ Text.Denotes first n ∧
      address = some n ∧
      (second = "--" ∨ ∃ m, Text.Denotes second m ∧ m ≤ 65535 ∧ value = some m) := by
  unfold setArguments at taken
  cases units : readUnits (setGrammar.parse argv).given with
  | error e => simp [units, bind, Except.bind] at taken
  | ok numbers =>
      cases outcome : (setGrammar.parse argv).outcome with
      | error e => simp [units, outcome, bind, Except.bind] at taken
      | ok left =>
          cases left with
          | cons extra extras => simp [units, outcome, bind, Except.bind] at taken
          | nil =>
              obtain ⟨first, second, texts, given⟩ := pair_of_parsed rfl rfl outcome
              obtain ⟨rfl, rfl⟩ : numbers.head?.join = address ∧
                  (numbers.drop 1).head?.join = value := by
                simpa [units, outcome, bind, Except.bind, pure, Except.pure] using taken
              rw [given, readUnits] at units
              cases read : readUnit "address" first with
              | error e => simp [read, bind, Except.bind] at units
              | ok n =>
                  have denotes := (readUnit_eq_ok_iff.mp read).1
                  by_cases lost : second = "--"
                  · refine ⟨first, second, n, texts, denotes, ?_, .inl lost⟩
                    cases others : readUnits
                        [.position "value" (Grammar.unlessMarker second)] with
                    | error e => simp [read, others, bind, Except.bind] at units
                    | ok units' =>
                        obtain rfl : some n :: units' = numbers := by
                          simpa [read, others, bind, Except.bind, pure, Except.pure] using units
                        rfl
                  · rw [Grammar.unlessMarker, if_neg lost] at units
                    cases read' : readUnit "value" second with
                    | error e => simp [read, read', readUnits, bind, Except.bind] at units
                    | ok m =>
                        obtain ⟨denotes', fits⟩ := readUnit_eq_ok_iff.mp read'
                        obtain rfl : [some n, some m] = numbers := by
                          simpa [read, read', readUnits, bind, Except.bind, pure, Except.pure]
                            using units
                        exact ⟨first, second, n, texts, denotes, rfl, .inr ⟨m, denotes', fits, rfl⟩⟩

theorem run_set {d d' : Debugger} {argv : List String} {outcome : Outcome}
    (ran : runSet d argv = (d', .ok outcome)) (goes_on : outcome.preempts = false) :
    set.run d argv = (d', .ok outcome) := by
  have carried : set.carryOut d argv = (d', .ok outcome) := ran
  simp only [run, carried, goes_on, Bool.or_false]

variable {d : Debugger} {argv : List String} {address value : Nat}

theorem runSet_of_asks (attached : d.attached = true) (asks : Asks argv address value) :
    ∃ inside : address < 32776, runSet d argv = (poke d ⟨address, inside⟩ value, .ok {}) := by
  have taken := setArguments_of_asks asks
  obtain ⟨-, -, -, -, -, most, -⟩ := asks
  have inside : address < 32776 := by omega
  refine ⟨inside, ?_⟩
  unfold runSet
  simp only [taken, Option.getD_some, attached]
  exact dif_pos inside

/-- What is not asked for properly is refused, unless the value is lost. -/
theorem runSet_of_not_asks
    (refused : ∀ address value, ¬Asks argv address value) (kept : ¬Loses argv) :
    ∃ message, runSet d argv = (d.reportError message, .ok { status := 1 }) := by
  unfold runSet
  cases taken : setArguments argv with
  | error e => exact ⟨_, rfl⟩
  | ok units =>
      obtain ⟨address, value⟩ := units
      obtain ⟨first, second, n, texts, denotes, rfl, value_cases⟩ := pair_of_setArguments taken
      have outside : ¬n < numCells := by
        intro inside
        have most : n ≤ 32775 := Nat.le_of_lt_succ inside
        obtain rfl | ⟨m, denotes', fits, -⟩ := value_cases
        · exact kept ⟨first, n, texts, denotes, most⟩
        · exact refused n m ⟨first, second, texts, denotes, denotes', most, fits⟩
      simp only [Option.getD_some]
      exact ⟨_, dif_neg outside⟩

/-- `set` takes the argument lists that ask for a number to be stored, and no others: one of them
puts the value into the cell and changes nothing else of the machine; any other is answered by an
error and changes nothing, but for those whose value is lost. -/
theorem run_set_exact (attached : d.attached = true) (argv : List String) :
    (∀ address value, Asks argv address value →
      ∃ inside : address < 32776, (set.run d argv).2 = .ok { status := 0 } ∧
        (set.run d argv).1 = { d with
          machine := { d.machine with
            memory := d.machine.memory.set ⟨address, inside⟩ (UInt16.ofNat value) }
          host := (set.run d argv).1.host }) ∧
    ((∀ address value, ¬Asks argv address value) → ¬Loses argv →
      (set.run d argv).2 = .ok { status := 1 } ∧
        (set.run d argv).1 = { d with host := (set.run d argv).1.host } ∧
        Continues d.told "error: " (set.run d argv).1.told) := by
  constructor
  · intro address value asks
    obtain ⟨inside, ran⟩ := runSet_of_asks attached asks
    exact ⟨inside, by rw [run_set ran rfl], by rw [run_set ran rfl]; rfl⟩
  · intro refused kept
    obtain ⟨message, ran⟩ := runSet_of_not_asks refused kept
    rw [run_set ran rfl]
    exact ⟨rfl, rfl, d.continues_reportError message⟩

/-- A marker stands between the two numbers, which are written in two scripts. -/
theorem marked_run_set_exact :
    (set.run {} ["7", "--", "١0"]).2 = .ok { status := 0 } ∧
      (set.run {} ["7", "--", "١0"]).1.machine.memory.get 7 = 10 ∧
      (set.run {} ["7", "²"]).2 = .ok { status := 1 } ∧
      (set.run {} ["7", "²"]).1.machine.memory.get 7 = 0 := by
  obtain ⟨taken, -⟩ := run_set_exact (d := {}) rfl ["7", "--", "١0"]
  obtain ⟨-, refused⟩ := run_set_exact (d := {}) rfl ["7", "²"]
  have seven : Text.Denotes "7" 7 := ⟨[7], by decide +kernel, by decide, by decide, by decide⟩
  have ten : Text.Denotes "١0" 10 := ⟨[1, 0], by decide +kernel, by decide, by decide, by decide⟩
  have no_number (n : Nat) : ¬Text.Denotes "²" n := by
    rintro ⟨ds, values, -⟩
    have none_written : "²".toList.mapM Text.decimalValue? = none := by decide +kernel
    rw [none_written] at values
    cases values
  have pair : ["7", "²"].erase "--" = ["7", "²"] := by decide
  obtain ⟨inside, zero, stored⟩ := taken 7 10 ⟨"7", "١0", by decide, seven, ten, by decide, by decide⟩
  obtain ⟨one, same, -⟩ := refused
    (by
      rintro address value ⟨first, second, texts, -, denotes, -⟩
      rw [pair] at texts
      obtain ⟨-, rfl⟩ : "7" = first ∧ "²" = second := by simpa using texts
      exact no_number value denotes)
    (by
      rintro ⟨first, address, texts, -⟩
      rw [pair] at texts
      simp at texts)
  refine ⟨zero, ?_, one, ?_⟩
  · rw [stored]
    exact Memory.get_set_self _ _ _
  · rw [same]
    decide +kernel

/-- Three arguments can be taken as well: the marker is one of them. -/
theorem three_arguments_taken :
    ¬∀ argv : List String, (set.run {} argv).2 = .ok { status := 0 } → argv.length = 2 := by
  intro pairs
  have taken : (set.run {} ["--", "5", "7"]).2 = .ok { status := 0 } := by rfl
  exact absurd (pairs _ taken) (by decide)

end Command

end WordMachine
