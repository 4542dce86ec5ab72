import WordMachine.Proofs.CommandOutcome

/-!
# Two ways to cut a command line

A line is recognised as a command by its first word, up to any blank, and is then cut into words
again, where only four of the blanks part them. The two agree on the name of the command exactly
when the blank behind it is one of the four; any other becomes a part of the first word, which is
dropped together with what is tied to the name so.
-/

namespace WordMachine

namespace Text

/-- What follows the first word of a line, blanks at both ends left out. -/
def afterWord (line : List Char) : List Char := (trim line).dropWhile (!isBlank ·)

/-- A character that stands for itself between blanks and outside of quotes. -/
def isPlain (c : Char) : Bool := !isBlank c && c != '\\' && c != '\'' && c != '"'

section TakeWhile

variable {α : Type} {p : α → Bool} {l₁ l₂ : List α}

theorem takeWhile_append_of_none (stops : ∀ a ∈ l₂, p a = false) :
    (l₁ ++ l₂).takeWhile p = l₁.takeWhile p := by
  induction l₁ with
  | nil =>
      cases l₂ with
      | nil => rfl
      | cons a l₂ => exact List.takeWhile_cons_of_neg (by simp [stops a List.mem_cons_self])
  | cons a l₁ ih =>
      rw [List.cons_append, List.takeWhile_cons, List.takeWhile_cons, ih]

theorem dropWhile_eq_self {a : α} {l : List α} (stops : p a = false) :
    (a :: l).dropWhile p = a :: l := List.dropWhile_cons_of_neg (by simp [stops])

end TakeWhile

/-- Trimming leaves the first word as it is. -/
theorem takeWhile_trim (line : List Char) :
    (trim line).takeWhile (!isBlank ·) = firstWord line := by
  let started := line.dropWhile isBlank
  have parts : trim line ++ (started.reverse.takeWhile isBlank).reverse = started := by
    rw [trim, strip, ← List.reverse_append, List.takeWhile_append_dropWhile, List.reverse_reverse]
  have blanks : ∀ c ∈ (started.reverse.takeWhile isBlank).reverse, (!isBlank c) = false := by
    intro c mem
    have all := List.all_takeWhile (p := isBlank) (l := started.reverse)
    have blank := List.all_eq_true.mp all c (List.mem_reverse.mp mem)
    simp [blank]
  rw [firstWord, ← takeWhile_append_of_none blanks, parts]

theorem trim_eq (line : List Char) : trim line = firstWord line ++ afterWord line := by
  rw [afterWord, ← takeWhile_trim, List.takeWhile_append_dropWhile]

theorem isBlank_of_afterWord {line rest : List Char} {c : Char}
    (after : afterWord line = c :: rest) : isBlank c = true := by
  have stops := List.head?_dropWhile_not (!isBlank ·) (trim line)
  rw [show (trim line).dropWhile (!isBlank ·) = c :: rest from after] at stops
  simpa using stops

/-- Blanks at both ends are all that trimming takes away. -/
theorem trim_of_surrounded {front back core : List Char} {c d : Char}
    (front_blank : ∀ b ∈ front, isBlank b = true) (back_blank : ∀ b ∈ back, isBlank b = true)
    (starts : core.head? = some c) (ends : core.getLast? = some d)
    (c_bare : isBlank c = false) (d_bare : isBlank d = false) :
    trim (front ++ core ++ back) = core := by
  obtain ⟨rest, rfl⟩ := List.head?_eq_some_iff.mp starts
  obtain ⟨init, same⟩ := List.getLast?_eq_some_iff.mp ends
  have stripped : (front ++ (c :: rest) ++ back).dropWhile isBlank = c :: rest ++ back := by
    rw [List.append_assoc, List.dropWhile_append_of_pos front_blank, List.cons_append,
      dropWhile_eq_self c_bare]
  have back_blank' : ∀ b ∈ back.reverse, isBlank b = true :=
    fun b mem => back_blank b (List.mem_reverse.mp mem)
  rw [trim, strip, stripped, List.reverse_append, List.dropWhile_append_of_pos back_blank', same,
    List.reverse_append, List.reverse_singleton, List.singleton_append, dropWhile_eq_self d_bare,
    ← List.singleton_append, List.reverse_append, List.reverse_reverse, List.reverse_singleton]

theorem isBlank_of_isWordSpace {c : Char} (space : isWordSpace c = true) : isBlank c = true := by
  simp only [isWordSpace, Bool.or_eq_true, decide_eq_true_eq] at space
  rcases space with ((rfl | rfl) | rfl) | rfl <;> rfl

theorem isWordSpace_of_bare {c : Char} (bare : isBlank c = false) : isWordSpace c = false := by
  cases space : isWordSpace c with
  | false => rfl
  | true =>
      rw [isBlank_of_isWordSpace space] at bare
      cases bare

/-- A blank quotes nothing. -/
theorem unquoting_of_isBlank {c : Char} (blank : isBlank c = true) :
    c ≠ '\\' ∧ c ≠ '\'' ∧ c ≠ '"' := by
  refine ⟨?_, ?_, ?_⟩
  all_goals
    rintro rfl
    revert blank
    decide

/-- The words already closed stand in front of those that follow. -/
theorem wordsFrom_words (mode : WordMode) (cs : List Char) (ws : List String)
    (current : Option (List Char)) :
    wordsFrom mode cs ⟨ws, current⟩ = (wordsFrom mode cs ⟨[], current⟩).map (ws.reverse ++ ·) := by
  induction cs generalizing mode ws current with
  | nil =>
      cases mode with
      | plain => cases current <;> simp [wordsFrom, WordState.close, Except.map]
      | _ => rfl
  | cons c cs ih =>
      cases mode with
      | plain =>
          simp only [wordsFrom]
          split
          · cases current with
            | none => exact ih .plain ws none
            | some word =>
                simp only [WordState.close]
                rw [ih .plain (_ :: ws), ih .plain [_]]
                cases wordsFrom .plain cs ⟨[], none⟩ <;> simp [Except.map]
          · split
            · exact ih .escaped ws current
            · split
              · exact ih .single ws _
              · split
                · exact ih .double ws _
                · exact ih .plain ws _
      | escaped => exact ih .plain ws _
      | single =>
          simp only [wordsFrom]
          split
          · exact ih .plain ws current
          · exact ih .single ws _
      | double =>
          simp only [wordsFrom]
          split
          · exact ih .plain ws current
          · split
            · exact ih .doubleEscaped ws current
            · exact ih .double ws _
      | doubleEscaped =>
          simp only [wordsFrom]
          split
          · exact ih .double ws _
          · exact ih .double ws _

/-- An open word is continued by what is read, in the first word that comes of it. -/
theorem head_wordsFrom {mode : WordMode} {cs current : List Char} {words : List String}
    (read : wordsFrom mode cs ⟨[], some current⟩ = .ok words) :
    ∃ word, words.head? = some word ∧ current.reverse <+: word.toList := by
  induction cs generalizing mode current with
  | nil =>
      cases mode with
      | plain =>
          obtain rfl := Except.ok.inj read
          exact ⟨String.ofList current.reverse, rfl, by simp⟩
      | _ => cases read
  | cons c cs ih =>
      have longer (more : List Char) {mode : WordMode}
          (read : wordsFrom mode cs ⟨[], some (more ++ current)⟩ = .ok words) :
          ∃ word, words.head? = some word ∧ current.reverse <+: word.toList := by
        obtain ⟨word, head, starts⟩ := ih read
        rw [List.reverse_append] at starts
        exact ⟨word, head, (List.prefix_append _ _).trans starts⟩
      cases mode with
      | plain =>
          simp only [wordsFrom] at read
          split at read
          · simp only [WordState.close] at read
            rw [wordsFrom_words] at read
            cases later : wordsFrom .plain cs ⟨[], none⟩ with
            | error e => simp [later, Except.map] at read
            | ok words' =>
                obtain rfl : String.ofList current.reverse :: words' = words := by
                  simpa [later, Except.map] using read
                exact ⟨_, rfl, by simp⟩
          · split at read
            · exact ih read
            · split at read
              · exact ih read
              · split at read
                · exact ih read
                · exact longer [c] read
      | escaped => exact longer [c] read
      | single =>
          simp only [wordsFrom] at read
          split at read
          · exact ih read
          · exact longer [c] read
      | double =>
          simp only [wordsFrom] at read
          split at read
          · exact ih read
          · split at read
            · exact ih read
            · exact longer [c] read
      | doubleEscaped =>
          simp only [wordsFrom] at read
          split at read
          · exact longer [c] read
          · exact longer [c, '\\'] read

/-- Plain characters are added to the open word. -/
theorem wordsFrom_plain {w : List Char} (plain : ∀ c ∈ w, isPlain c = true) (rest : List Char)
    (s : WordState) : wordsFrom .plain (w ++ rest) s = wordsFrom .plain rest (w.foldl .add s) := by
  induction w generalizing s with
  | nil => rfl
  | cons c w ih =>
      have here := plain c List.mem_cons_self
      simp only [isPlain, Bool.and_eq_true, Bool.not_eq_true', bne_iff_ne] at here
      obtain ⟨⟨⟨bare, slash⟩, single⟩, double⟩ := here
      have later := ih (fun d mem => plain d (List.mem_cons_of_mem c mem)) (s.add c)
      rw [List.cons_append, wordsFrom, if_neg (by simp [isWordSpace_of_bare bare]), if_neg slash,
        if_neg single, if_neg double, later, List.foldl_cons]

theorem foldl_add (w : List Char) (ws : List String) (current : List Char) :
    w.foldl .add ⟨ws, some current⟩ = (⟨ws, some (w.reverse ++ current)⟩ : WordState) := by
  induction w generalizing current with
  | nil => rfl
  | cons c w ih =>
      rw [List.foldl_cons, List.reverse_cons, List.append_assoc]
      exact ih (c :: current)

theorem shellWords_space {c : Char} (space : isWordSpace c = true) (cs : List Char) :
    shellWords (c :: cs) = shellWords cs := by
  rw [shellWords, wordsFrom, if_pos space]
  rfl

/-- A word of plain characters with nothing in front of it is read up to the next space, or opens
the first word. -/
theorem shellWords_plain {w : List Char} (some_plain : w ≠ []) (plain : ∀ c ∈ w, isPlain c = true)
    (rest : List Char) :
    shellWords (w ++ rest) = wordsFrom .plain rest ⟨[], some w.reverse⟩ := by
  obtain ⟨c, cs, rfl⟩ := List.exists_cons_of_ne_nil some_plain
  rw [shellWords, wordsFrom_plain plain]
  exact congrArg (wordsFrom .plain rest) (by rw [List.reverse_cons]; exact foldl_add cs [] [c])

theorem shellWords_word {w : List Char} (some_plain : w ≠ []) (plain : ∀ c ∈ w, isPlain c = true)
    {rest : List Char} (parted : ∀ c, rest.head? = some c → isWordSpace c = true) :
    shellWords (w ++ rest) = (shellWords rest).map (String.ofList w :: ·) := by
  rw [shellWords_plain some_plain plain]
  cases rest with
  | nil => simp [wordsFrom, WordState.close, shellWords, Except.map]
  | cons c cs =>
      have space := parted c rfl
      rw [shellWords_space space, wordsFrom, if_pos space]
      simp only [WordState.close, List.reverse_reverse]
      exact wordsFrom_words .plain cs [_] none

theorem shellWords_gap {gap : List Char} (spaces : ∀ c ∈ gap, isWordSpace c = true)
    (rest : List Char) : shellWords (gap ++ rest) = shellWords rest := by
  induction gap with
  | nil => rfl
  | cons c gap ih =>
      rw [List.cons_append, shellWords_space (spaces c List.mem_cons_self)]
      exact ih fun d mem => spaces d (List.mem_cons_of_mem c mem)

/-- The decimal digits of a number, as they are written on a line. -/
def digits (n : Nat) : List Char := (toString n).toList

theorem digits_eq (n : Nat) : digits n = Nat.toDigits 10 n := by
  rw [digits, Nat.toString_eq_ofList_toDigits, String.toList_ofList]

theorem digits_ne_nil (n : Nat) : digits n ≠ [] := by
  rw [digits_eq]
  exact Nat.toDigits_ne_nil

theorem ascii_of_mem_digits {n : Nat} {c : Char} (mem : c ∈ digits n) :
    c.isDigit = true ∧ 48 ≤ c.toNat ∧ c.toNat ≤ 57 := by
  rw [digits_eq] at mem
  have digit := Nat.isDigit_of_mem_toDigits (by decide) (by decide) mem
  have range := digit
  simp only [Char.isDigit, Bool.and_eq_true, decide_eq_true_eq] at range
  exact ⟨digit, range⟩

theorem plain_of_mem_digits {n : Nat} {c : Char} (mem : c ∈ digits n) : isPlain c = true := by
  obtain ⟨-, least, most⟩ := ascii_of_mem_digits mem
  have bare : isBlank c = false := by
    simp only [isBlank, Bool.or_eq_false_iff, Bool.and_eq_false_iff, decide_eq_false_iff_not,
      beq_eq_false_iff_ne]
    omega
  have other (d : Char) (outside : ¬48 ≤ d.toNat ∨ ¬d.toNat ≤ 57) : (c != d) = true := by
    rw [bne_iff_ne]
    rintro rfl
    omega
  simp only [isPlain, bare, other '\\' (by decide), other '\'' (by decide), other '"' (by decide)]
  rfl

theorem decimalValue?_of_mem_digits {n : Nat} {c : Char} (mem : c ∈ digits n) :
    decimalValue? c = some (c.toNat - 48) := by
  obtain ⟨digit, -, most⟩ := ascii_of_mem_digits mem
  rw [decimalValue?, if_pos (by omega), if_pos digit]

theorem digitValues?_of_digits {cs : List Char} (some_digits : cs ≠ [])
    (values : ∀ c ∈ cs, decimalValue? c = some (c.toNat - 48)) :
    digitValues? cs = some (cs.map (·.toNat - 48)) := by
  induction cs with
  | nil => exact absurd rfl some_digits
  | cons c cs ih =>
      have first := values c List.mem_cons_self
      cases cs with
      | nil => rw [digitValues?, first]; rfl
      | cons d cs =>
          have later := ih (List.cons_ne_nil d cs) fun e mem => values e (List.mem_cons_of_mem c mem)
          have tied : d ≠ '_' := by
            rintro rfl
            have value := values '_' (by simp)
            revert value
            decide
          rw [digitValues?, first, later]
          · rfl
          · simp
          · rintro cs' same
            exact tied (List.cons.inj same).1

theorem ofDigits_digits (n : Nat) : ofDigits ((digits n).map (·.toNat - 48)) = n := by
  have read := @Nat.ofDigitChars_ten_toDigits n
  rw [Nat.ofDigitChars] at read
  rw [ofDigits, List.foldl_map, digits_eq]
  exact read

/-- A number of a few digits is read as it was written. -/
theorem readNat?_digits {n : Nat} (fits : n ≤ 65535) : readNat? (digits n) = some n := by
  have values := digitValues?_of_digits (digits_ne_nil n) fun c => decimalValue?_of_mem_digits
  have few : (digits n).length ≤ 5 := by
    rw [digits_eq, Nat.length_toDigits_le_iff (by decide) (by decide)]
    omega
  have short : ((digits n).map (·.toNat - 48)).length ≤ maxDigits := by
    rw [List.length_map]
    exact few.trans (by decide)
  simp only [readNat?, values, bind, Option.bind, if_pos short, ofDigits_digits]

/-- Spaces that part two words. -/
def IsGap (gap : List Char) : Prop := gap ≠ [] ∧ ∀ c ∈ gap, isWordSpace c = true

theorem IsGap.head {gap rest : List Char} (h : IsGap gap) (c : Char)
    (first : (gap ++ rest).head? = some c) : isWordSpace c = true := by
  obtain ⟨d, gap, rfl⟩ := List.exists_cons_of_ne_nil h.1
  obtain rfl : d = c := by simpa using first
  exact h.2 d List.mem_cons_self

end Text

namespace Command

theorem name_of_ofName? {text : String} {c : Command} (named : ofName? text = some c) :
    text = c.name := by
  have found := List.find?_some named
  exact (eq_of_beq found).symm

theorem plain_name (c : Command) : ∀ d ∈ c.name.toList, Text.isPlain d = true :=
  List.all_eq_true.mp (by cases c <;> decide)

/-- A line that is recognised starts with the name of the command. -/
theorem firstWord_of_named {line : String} {c : Command}
    (word : ofName? (commandWord line) = some c) : Text.firstWord line.toList = c.name.toList := by
  have name := name_of_ofName? word
  unfold commandWord at name
  split at name
  · next rest first => rw [first, ← name, String.toList_ofList]
  · cases c <;> simp [Command.name] at name

/-- Both ways to cut a line into words agree on the name exactly where a space stands behind it, or
nothing; then the arguments are what follows the name. -/
theorem head_words_iff {line : String} {c : Command} {words : List String}
    (word : ofName? (commandWord line) = some c) (accepted : commandArguments line = .ok words) :
    (words.head? = some c.name ↔
      ∀ b, (Text.afterWord line.toList).head? = some b → Text.isWordSpace b = true) ∧
    (words.head? = some c.name →
      Text.shellWords (Text.afterWord line.toList) = .ok (words.drop 1)) := by
  have started : c.name.toList ≠ [] := by cases c <;> decide
  have cut : Text.trim line.toList = c.name.toList ++ Text.afterWord line.toList := by
    rw [Text.trim_eq, firstWord_of_named word]
  rw [commandArguments, cut] at accepted
  have parted (spaced : ∀ b, (Text.afterWord line.toList).head? = some b →
      Text.isWordSpace b = true) : words.head? = some c.name ∧
        Text.shellWords (Text.afterWord line.toList) = .ok (words.drop 1) := by
    rw [Text.shellWords_word started c.plain_name spaced] at accepted
    cases rest : Text.shellWords (Text.afterWord line.toList) with
    | error e => simp [rest, Except.map] at accepted
    | ok tail =>
        obtain rfl : String.ofList c.name.toList :: tail = words := by
          simpa [rest, Except.map] using accepted
        exact ⟨by simp, rfl⟩
  have spaced (head : words.head? = some c.name) (b : Char)
      (follows : (Text.afterWord line.toList).head? = some b) : Text.isWordSpace b = true := by
    obtain ⟨rest, after⟩ := List.head?_eq_some_iff.mp follows
    obtain ⟨slash, single, double⟩ := Text.unquoting_of_isBlank (Text.isBlank_of_afterWord after)
    rw [after, Text.shellWords_plain started c.plain_name] at accepted
    cases space : Text.isWordSpace b with
    | true => rfl
    | false =>
        -- the blank becomes the next character of the first word, which is not the name then
        rw [Text.wordsFrom, if_neg (by simp [space]), if_neg slash, if_neg single,
          if_neg double] at accepted
        obtain ⟨first, is_first, starts⟩ := Text.head_wordsFrom accepted
        obtain rfl : first = c.name := Option.some.inj (is_first.symm.trans head)
        have longer := starts.length_le
        simp at longer
  exact ⟨⟨spaced, fun h => (parted h).1⟩, fun head => (parted (spaced head)).2⟩

theorem readUnit_toString {n : Nat} (fits : n ≤ 65535) (name : String) :
    readUnit name (toString n) = .ok n := by
  have started : (Text.digits n).isEmpty = false := by
    rw [List.isEmpty_eq_false_iff]
    exact Text.digits_ne_nil n
  have all : (Text.digits n).all Text.isDigit = true := by
    rw [List.all_eq_true]
    intro c mem
    rw [Text.isDigit, Text.decimalValue?_of_mem_digits mem]
    rfl
  have number : readUnit name (toString n) =
      if 65535 < n then .error (.invalid name s!"{n} does not fit in 16 bits") else .ok n := by
    rw [readUnit]
    simp only [show (toString n).toList = Text.digits n from rfl, started, all,
      Text.readNat?_digits fits]
    rfl
  rw [number, if_neg (Nat.not_lt.mpr fits)]

/-- A number does not read like a switch. -/
theorem toString_bare (n : Nat) : (toString n).startsWith "-" = false := by
  rw [String.startsWith_string_eq_false_iff]
  rintro ⟨rest, starts⟩
  have dash : '-' ∈ Text.digits n := by
    rw [Text.digits, ← starts]
    simp
  have digit := (Text.ascii_of_mem_digits dash).1
  revert digit
  decide

theorem setArguments_pair {address value : Nat} (address_fits : address ≤ 65535)
    (value_fits : value ≤ 65535) :
    setArguments [toString address, toString value] = .ok (some address, some value) := by
  have unmarked (n : Nat) : toString n ≠ "--" := by
    intro same
    have bare := toString_bare n
    rw [same, String.startsWith_string_eq_false_iff] at bare
    exact bare ⟨['-'], rfl⟩
  have token (n : Nat) : setGrammar.token (toString n) = .ok (.argument (toString n)) := by
    rw [Arguments.Grammar.token, toString_bare]
    rfl
  have sorted : setGrammar.tokens [toString address, toString value] =
      .ok [.argument (toString address), .argument (toString value)] := by
    simp only [Arguments.Grammar.tokens, if_neg (unmarked _), token]
    rfl
  have given : setGrammar.parse [toString address, toString value] =
      { given := [.position "address" (some (toString address)),
          .position "value" (some (toString value))]
        outcome := .ok [] } := by
    rw [Arguments.Grammar.parse, sorted]
    simp only [setGrammar, Arguments.Grammar.parseFrom, Arguments.Grammar.unlessMarker,
      if_neg (unmarked _)]
    rfl
  rw [setArguments, given]
  simp only [readUnits, readUnit_toString address_fits, readUnit_toString value_fits]
  rfl

/-- A line that asks for a number to be stored, without the blanks around it. -/
def setWords (gap₁ : List Char) (address : Nat) (gap₂ : List Char) (value : Nat) : List Char :=
  set.name.toList ++ (gap₁ ++ (Text.digits address ++ (gap₂ ++ Text.digits value)))

variable {front gap₁ gap₂ back : List Char} {address value : Nat}

theorem shellWords_setWords (first : Text.IsGap gap₁) (second : Text.IsGap gap₂) :
    Text.shellWords (setWords gap₁ address gap₂ value) =
      .ok [set.name, toString address, toString value] := by
  have number (n : Nat) : String.ofList (Text.digits n) = toString n := String.ofList_toList
  have last : Text.shellWords (Text.digits value) = .ok [toString value] := by
    have alone := @Text.shellWords_word (Text.digits value) (Text.digits_ne_nil value)
      (fun c => Text.plain_of_mem_digits) [] (by simp)
    rw [List.append_nil, number] at alone
    exact alone
  have middle : Text.shellWords (Text.digits address ++ (gap₂ ++ Text.digits value)) =
      .ok [toString address, toString value] := by
    rw [Text.shellWords_word (Text.digits_ne_nil address) (fun c => Text.plain_of_mem_digits)
      second.head, Text.shellWords_gap second.2, last, number]
    rfl
  rw [setWords, Text.shellWords_word (by decide) (plain_name set) first.head,
    Text.shellWords_gap first.2, middle, String.ofList_toList]
  rfl

theorem trim_setWords (front_blank : ∀ c ∈ front, Text.isBlank c = true)
    (back_blank : ∀ c ∈ back, Text.isBlank c = true) :
    Text.trim (front ++ setWords gap₁ address gap₂ value ++ back) =
      setWords gap₁ address gap₂ value := by
  obtain ⟨d, ends⟩ : ∃ d, (Text.digits value).getLast? = some d :=
    ⟨_, List.getLast?_eq_some_getLast (Text.digits_ne_nil value)⟩
  have last : (setWords gap₁ address gap₂ value).getLast? = some d := by
    simp [setWords, List.getLast?_append, ends]
  have plain := Text.plain_of_mem_digits (List.mem_of_getLast? ends)
  simp only [Text.isPlain, Bool.and_eq_true, Bool.not_eq_true'] at plain
  exact Text.trim_of_surrounded front_blank back_blank rfl last (by decide) plain.1.1.1

theorem commandWord_setWords (front_blank : ∀ c ∈ front, Text.isBlank c = true)
    (gap : Text.IsGap gap₁) :
    commandWord (String.ofList (front ++ setWords gap₁ address gap₂ value ++ back)) = set.name := by
  obtain ⟨b, gap₁, rfl⟩ := List.exists_cons_of_ne_nil gap.1
  have blank := Text.isBlank_of_isWordSpace (gap.2 b List.mem_cons_self)
  have word : Text.firstWord (front ++ setWords (b :: gap₁) address gap₂ value ++ back) =
      set.name.toList := by
    have bare : ∀ c ∈ set.name.toList, (!Text.isBlank c) = true :=
      List.all_eq_true.mp (by decide)
    have starts : set.name.toList = '!' :: ['s', 'e', 't'] := by decide
    rw [Text.firstWord, List.append_assoc, List.dropWhile_append_of_pos front_blank, setWords,
      List.append_assoc, starts, List.cons_append, Text.dropWhile_eq_self (by decide),
      ← List.cons_append, ← starts, List.takeWhile_append_of_pos bare, List.cons_append,
      List.cons_append, List.takeWhile_cons_of_neg (by simp [blank]), List.append_nil]
  rw [commandWord, String.toList_ofList, word]
  rfl

/-- A number is stored where it should be when spaces part the name, the address and the number. -/
theorem poke?_setWords {d : Debugger} (attached : d.attached = true) (inside : address < 32776)
    (fits : value ≤ 65535) (front_blank : ∀ c ∈ front, Text.isBlank c = true)
    (back_blank : ∀ c ∈ back, Text.isBlank c = true) (first : Text.IsGap gap₁)
    (second : Text.IsGap gap₂) :
    Call.poke? ⟨set, String.ofList (front ++ setWords gap₁ address gap₂ value ++ back), d⟩ =
      some (⟨address, inside⟩, UInt16.ofNat value) := by
  have address_fits : address ≤ 65535 := by omega
  have words : Call.arguments?
      ⟨set, String.ofList (front ++ setWords gap₁ address gap₂ value ++ back), d⟩ =
        some [toString address, toString value] := by
    rw [Call.arguments?, commandArguments, String.toList_ofList, trim_setWords front_blank back_blank,
      shellWords_setWords first second]
    rfl
  rw [Call.poke?, if_pos ⟨rfl, attached⟩, words, Option.bind_some, target?,
    setArguments_pair address_fits fits]
  exact dif_pos inside

end Command

/-- The name that a line is recognised by is the first of its words exactly where a space, or
nothing, stands behind it, and then what follows is its arguments. So a number is stored where it
should be whenever spaces part the name, the address and the number, whatever blanks stand around
them. -/
theorem command_words {d : Debugger} (attached : d.attached = true) :
    (∀ (line : String) (c : Command) (words : List String),
      Command.ofName? (commandWord line) = some c → commandArguments line = .ok words →
      (words.head? = some c.name ↔
        ∀ b, (Text.afterWord line.toList).head? = some b → Text.isWordSpace b = true) ∧
      (words.head? = some c.name →
        Text.shellWords (Text.afterWord line.toList) = .ok (words.drop 1))) ∧
    (∀ (front gap₁ gap₂ back : List Char) (address value : Nat) (inside : address < 32776),
      value ≤ 65535 →
      (∀ b ∈ front, Text.isBlank b = true) → (∀ b ∈ back, Text.isBlank b = true) →
      Text.IsGap gap₁ → Text.IsGap gap₂ →
      let line := String.ofList (front ++ Command.setWords gap₁ address gap₂ value ++ back)
      let c : Call := ⟨.set, line, d⟩
      Command.ofName? (commandWord line) = some .set ∧ c.Done ∧
        c.after.machine = { d.machine with
          memory := d.machine.memory.set ⟨address, inside⟩ (UInt16.ofNat value) }) := by
  refine ⟨fun line c words => Command.head_words_iff, ?_⟩
  intro front gap₁ gap₂ back address value inside fits front_blank back_blank first second line c
  have word : commandWord line = Command.set.name := Command.commandWord_setWords front_blank first
  have poke : c.poke? = some (⟨address, inside⟩, UInt16.ofNat value) :=
    Command.poke?_setWords attached inside fits front_blank back_blank first second
  have succeeds : c.Succeeds := by
    rw [Call.succeeds_set_iff rfl, poke]
    rfl
  obtain ⟨host, after⟩ := Call.stored_after poke
  exact ⟨by rw [word]; rfl, Call.done_of_succeeds succeeds, by rw [after]⟩

theorem spaced_command_words :
    let c : Call :=
      ⟨.set, String.ofList (['\u00a0'] ++ Command.setWords ['\t'] 5 [' ', ' '] 7 ++ []), {}⟩
    c.Done ∧ c.after.machine.memory.get ⟨5, by decide⟩ = 7 ∧
      Text.shellWords (Text.afterWord "!load 'a b'".toList) = .ok ["a b"] := by
  obtain ⟨agree, stores⟩ := @command_words {} rfl
  have named : Command.ofName? (commandWord "!load 'a b'") = some .load := by decide +kernel
  have words : commandArguments "!load 'a b'" = .ok ["!load", "a b"] := by rfl
  have gap₁ : Text.IsGap ['\t'] := ⟨by decide, List.all_eq_true.mp rfl⟩
  have gap₂ : Text.IsGap [' ', ' '] := ⟨by decide, List.all_eq_true.mp rfl⟩
  have front : ∀ b ∈ ['\u00a0'], Text.isBlank b = true := List.all_eq_true.mp rfl
  have back : ∀ b ∈ [], Text.isBlank b = true := List.all_eq_true.mp rfl
  obtain ⟨-, done, machine⟩ :=
    stores ['\u00a0'] ['\t'] [' ', ' '] [] 5 7 (by decide) (by decide) front back gap₁ gap₂
  refine ⟨done, ?_, (agree _ _ _ named words).2 rfl⟩
  rw [machine]
  exact Memory.get_set_self _ _ _

/-- A no-break space ends the name but not the first word: the address goes with it, and the value
is taken for the address. With one more number a wrong cell is stored to. -/
theorem command_words_disagree :
    Command.ofName? (commandWord "!set\u00a05 7") = some .set ∧
      (commandArguments "!set\u00a05 7").toOption = some ["!set\u00a05", "7"] ∧
      Call.poke? ⟨.set, "!set\u00a05 7", {}⟩ = none ∧
      Call.poke? ⟨.set, "!set\u00a05 7 9", {}⟩ = some (⟨7, by decide⟩, 9) := by
  decide +kernel

end WordMachine
