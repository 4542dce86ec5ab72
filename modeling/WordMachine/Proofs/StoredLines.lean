import Mathlib.Data.List.Induction
import Mathlib.Data.List.TakeWhile
import WordMachine.Input.History

/-!
# Lines of a stored text

Tidy lines, which are trimmed, not blank and not cut by any line boundary, are read back from the
text that they are written to. A line that is added at the end of a text is one more line of it
where the last line was ended; otherwise the two become one.
-/

namespace WordMachine

namespace Text

/-- No line boundary stands in a text. -/
def Whole (cs : List Char) : Prop := ∀ c ∈ cs, isLineBreak c = false

instance (cs : List Char) : Decidable (Whole cs) :=
  List.decidableBAll (isLineBreak · = false) cs

def CodePoint.isLineBreak : CodePoint → Bool
  | .char c => Text.isLineBreak c
  | .half _ _ => false

/-- No line boundary stands in a text that no encoder has seen. -/
def Raw.Whole (r : Raw) : Prop := ∀ p ∈ r, p.isLineBreak = false

instance (r : Raw) : Decidable r.Whole := List.decidableBAll (CodePoint.isLineBreak · = false) r

theorem Raw.whole_ofString {s : String} : Raw.Whole (Raw.ofString s) ↔ Text.Whole s.toList :=
  List.forall_mem_map

/-- What stands behind the last line boundary of a text. -/
def unended (cs : List Char) : List Char := (cs.reverse.takeWhile (!isLineBreak ·)).reverse

variable {cs rest line : List Char} {c : Char}

theorem whole_unended (cs : List Char) : Whole (unended cs) := by
  intro c mem
  have all := List.all_takeWhile (p := (!isLineBreak ·)) (l := cs.reverse)
  have plain := List.all_eq_true.mp all c (List.mem_reverse.mp mem)
  simpa using plain

theorem Whole.no_return (whole : Whole cs) : '\r' ∉ cs := by
  intro mem
  exact absurd (whole '\r' mem) (by decide)

theorem unended_concat_of_break (cs : List Char) (boundary : isLineBreak c = true) :
    unended (cs ++ [c]) = [] := by
  simp [unended, boundary]

theorem unended_concat (cs : List Char) (plain : isLineBreak c = false) :
    unended (cs ++ [c]) = unended cs ++ [c] := by
  simp [unended, plain]

theorem storedOnto_acc (cs piece : List Char) (acc : List (List Char)) :
    storedOnto cs piece acc = acc.reverse ++ storedOnto cs piece [] := by
  induction cs generalizing piece acc with
  | nil => by_cases piece = [] <;> simp [storedOnto, *]
  | cons c cs ih =>
      rw [storedOnto, storedOnto]
      split
      · rw [ih [] (piece.reverse :: acc), ih [] [piece.reverse]]
        simp
      · exact ih (c :: piece) acc

theorem storedOnto_whole (whole : Whole cs) (rest piece : List Char) (acc : List (List Char)) :
    storedOnto (cs ++ rest) piece acc = storedOnto rest (cs.reverse ++ piece) acc := by
  induction cs generalizing piece with
  | nil => rfl
  | cons c cs ih =>
      have plain : ¬isLineBreak c = true := by simp [whole c List.mem_cons_self]
      rw [List.cons_append, storedOnto, if_neg plain,
        ih (fun d mem => whole d (List.mem_cons_of_mem c mem))]
      simp

theorem storedLines_whole (whole : Whole cs) : storedLines cs = if cs = [] then [] else [cs] := by
  have read := storedOnto_whole whole [] [] []
  rw [List.append_nil, List.append_nil] at read
  rw [storedLines, read, storedOnto]
  by_cases empty : cs = [] <;> simp [empty]

/-- A line ends at the first line boundary. -/
theorem storedLines_cut (whole : Whole line) (boundary : isLineBreak c = true) (rest : List Char) :
    storedLines (line ++ c :: rest) = line :: storedLines rest := by
  rw [storedLines, storedOnto_whole whole, storedOnto, if_pos boundary, storedOnto_acc]
  simp [storedLines]

/-- A text is cut at its first line boundary, if it has one, and then what follows is cut. -/
theorem cutInduction {motive : List Char → Prop} (whole : ∀ cs, Whole cs → motive cs)
    (cut : ∀ line c rest, Whole line → isLineBreak c = true → motive rest →
      motive (line ++ c :: rest)) (cs : List Char) : motive cs := by
  induction size : cs.length using Nat.strongRecOn generalizing cs with
  | ind n ih =>
      have parts := List.takeWhile_append_dropWhile (p := (!isLineBreak ·)) (l := cs)
      have first : Whole (cs.takeWhile (!isLineBreak ·)) := by
        intro c mem
        simpa using List.all_eq_true.mp List.all_takeWhile c mem
      cases later : cs.dropWhile (!isLineBreak ·) with
      | nil =>
          rw [later, List.append_nil] at parts
          exact whole cs (parts ▸ first)
      | cons c rest =>
          have boundary := List.head?_dropWhile_not (!isLineBreak ·) cs
          rw [later] at boundary parts
          have shorter : rest.length < n := by
            rw [← size, ← parts, List.length_append, List.length_cons]
            omega
          rw [← parts]
          exact cut _ c rest first (by simpa using boundary) (ih _ shorter rest rfl)

/-- No line boundary is left in the lines of a text. -/
theorem whole_of_mem_storedLines (mem : line ∈ storedLines cs) : Whole line := by
  induction cs using cutInduction with
  | whole cs whole =>
      rw [storedLines_whole whole] at mem
      split at mem
      · cases mem
      · rwa [List.mem_singleton.mp mem]
  | cut first c rest whole boundary ih =>
      rw [storedLines_cut whole boundary] at mem
      rcases List.mem_cons.mp mem with rfl | mem
      · exact whole
      · exact ih mem

/-- What follows a text only changes the line that is not ended. -/
theorem exists_storedLines (cs : List Char) :
    ∃ lines, ∀ rest, storedLines (cs ++ rest) = lines ++ storedLines (unended cs ++ rest) := by
  induction cs using List.reverseRecOn with
  | nil => exact ⟨[], fun rest => rfl⟩
  | append_singleton cs c ih =>
      obtain ⟨lines, read⟩ := ih
      by_cases boundary : isLineBreak c = true
      · refine ⟨lines ++ [unended cs], fun rest => ?_⟩
        rw [List.append_assoc, List.singleton_append, read,
          storedLines_cut (whole_unended cs) boundary, unended_concat_of_break cs boundary]
        simp
      · refine ⟨lines, fun rest => ?_⟩
        rw [List.append_assoc, List.singleton_append, read,
          unended_concat cs (by simpa using boundary)]
        simp

theorem unifyOnto_acc (cs acc earlier : List Char) :
    unifyOnto cs (acc ++ earlier) = earlier.reverse ++ unifyOnto cs acc := by
  fun_induction unifyOnto cs acc with
  | case1 later acc ih => rw [unifyOnto, ← ih, List.cons_append]
  | case2 later acc single ih =>
      rw [unifyOnto, ← ih, List.cons_append]
      exact single
  | case3 c later acc double single ih => rw [unifyOnto, ← ih, List.cons_append] <;> assumption
  | case4 acc => rw [unifyOnto, List.reverse_append]

theorem unifyOnto_append (apart : rest.head? ≠ some '\n') (cs acc : List Char) :
    unifyOnto (cs ++ rest) acc = unifyOnto cs acc ++ unifyNewlines rest := by
  fun_induction unifyOnto cs acc with
  | case1 later acc ih => rw [List.cons_append, List.cons_append, unifyOnto, ih]
  | case2 later acc single ih =>
      rw [List.cons_append, unifyOnto, ih]
      intro more starts
      cases later with
      | nil =>
          rw [List.nil_append] at starts
          exact apart (starts ▸ rfl)
      | cons c later =>
          obtain ⟨rfl, -⟩ := List.cons.inj starts
          exact single later rfl
  | case3 c later acc double single ih =>
      rw [List.cons_append, unifyOnto, ih]
      · exact fun _ is => absurd is single
      · exact single
  | case4 acc => exact unifyOnto_acc rest [] acc

/-- Line ends are unified before and after a place, unless one of them stands at that place. -/
theorem unifyNewlines_append (cs : List Char) (apart : rest.head? ≠ some '\n') :
    unifyNewlines (cs ++ rest) = unifyNewlines cs ++ unifyNewlines rest :=
  unifyOnto_append apart cs []

/-- A text that ends in a line feed still does when its line ends are unified. -/
theorem getLast?_unifyNewlines (cs : List Char) :
    (unifyNewlines (cs ++ ['\n'])).getLast? = some '\n' := by
  have onto (acc : List Char) : (unifyOnto (cs ++ ['\n']) acc).getLast? = some '\n' := by
    fun_induction unifyOnto cs acc with
    | case1 later acc ih =>
        rw [List.cons_append, List.cons_append, unifyOnto]
        exact ih
    | case2 later acc single ih =>
        cases later with
        | nil => simp [unifyOnto]
        | cons c later =>
            have other : c ≠ '\n' := fun is => single later (is ▸ rfl)
            rw [List.cons_append, List.cons_append, unifyOnto]
            · exact ih
            · exact fun more starts => other (List.cons.inj starts).1
    | case3 c later acc double single ih =>
        rw [List.cons_append, unifyOnto]
        · exact ih
        · exact fun _ is => absurd is single
        · exact single
    | case4 acc => simp [unifyOnto]
  exact onto []

theorem unifyNewlines_eq_self (plain : '\r' ∉ cs) : unifyNewlines cs = cs := by
  have onto (acc : List Char) : unifyOnto cs acc = acc.reverse ++ cs := by
    induction cs generalizing acc with
    | nil => simp [unifyOnto]
    | cons c cs ih =>
        have other : c ≠ '\r' := fun is => plain (is ▸ List.mem_cons_self)
        rw [unifyOnto, ih (fun mem => plain (List.mem_cons_of_mem c mem))]
        · simp
        · exact fun _ is => absurd is other
        · exact other
  exact onto []

section Trim

variable {α : Type} (drop : α → Bool) (xs : List α)

theorem strip_append {front : List α} (dropped : ∀ x ∈ front, drop x = true) :
    strip drop (front ++ xs) = strip drop xs := by
  rw [strip, List.dropWhile_append_of_pos dropped, strip]

theorem strip_prefix_dropWhile : strip drop xs <+: xs.dropWhile drop := by
  have tail := List.dropWhile_suffix drop (l := (xs.dropWhile drop).reverse)
  rw [← List.reverse_prefix, List.reverse_reverse] at tail
  exact tail

theorem strip_eq_nil_iff : strip drop xs = [] ↔ ∀ x ∈ xs, drop x = true := by
  constructor
  · intro empty
    rw [← List.dropWhile_eq_nil_iff]
    cases started : xs.dropWhile drop with
    | nil => rfl
    | cons x rest =>
        have bare := List.head?_dropWhile_not drop xs
        rw [strip, List.reverse_eq_nil_iff, List.dropWhile_eq_nil_iff, started] at empty
        rw [started] at bare
        simp [empty x (by simp)] at bare
  · intro dropped
    rw [← List.append_nil xs, strip_append drop [] dropped]
    rfl

theorem drop_head_strip {x : α} (starts : (strip drop xs).head? = some x) : drop x = false := by
  have bare := List.head?_dropWhile_not drop xs
  obtain ⟨rest, stripped⟩ := List.head?_eq_some_iff.mp starts
  obtain ⟨more, whole⟩ := strip_prefix_dropWhile drop xs
  rw [stripped, List.cons_append] at whole
  rw [← whole] at bare
  simpa using bare

theorem drop_last_strip {x : α} (ends : (strip drop xs).getLast? = some x) : drop x = false := by
  have bare := List.head?_dropWhile_not drop (xs.dropWhile drop).reverse
  rw [strip, List.getLast?_reverse] at ends
  rw [ends] at bare
  simpa using bare

theorem strip_strip : strip drop (strip drop xs) = strip drop xs := by
  have front : (strip drop xs).dropWhile drop = strip drop xs := by
    cases stripped : strip drop xs with
    | nil => rfl
    | cons x rest =>
        have bare := drop_head_strip drop xs (x := x) (by rw [stripped]; rfl)
        exact List.dropWhile_cons_of_neg (by simp [bare])
  have back : (strip drop xs).reverse.dropWhile drop = (strip drop xs).reverse := by
    cases stripped : (strip drop xs).reverse with
    | nil => rfl
    | cons x rest =>
        have bare := drop_last_strip drop xs (x := x) (by rw [← List.head?_reverse, stripped]; rfl)
        exact List.dropWhile_cons_of_neg (by simp [bare])
  rw [strip, front, back, List.reverse_reverse]

theorem trim_append_of_blank {front : List Char} (blank : ∀ c ∈ front, isBlank c = true)
    (cs : List Char) : trim (front ++ cs) = trim cs := strip_append isBlank cs blank

theorem trim_sublist (cs : List Char) : (trim cs).Sublist cs :=
  (strip_prefix_dropWhile isBlank cs).sublist.trans (List.dropWhile_sublist _)

theorem trim_eq_nil_iff : trim cs = [] ↔ ∀ c ∈ cs, isBlank c = true := strip_eq_nil_iff isBlank cs

theorem trim_trim (cs : List Char) : trim (trim cs) = trim cs := strip_strip isBlank cs

theorem Raw.trim_trim (r : Raw) : Raw.trim (Raw.trim r) = Raw.trim r :=
  strip_strip CodePoint.isBlank r

end Trim

end Text

namespace History

open Text (Raw isBlank isLineBreak Whole storedLines trim unended unifyNewlines)

/-- A line that is read back as it was written. -/
structure Tidy (line : String) : Prop where
  whole : Whole line.toList
  trimmed : trim line.toList = line.toList
  filled : line ≠ ""

/-- Nothing but blanks stands behind the last line boundary of a text that is read. -/
def Ended (text : List Char) : Prop := ∀ c ∈ unended (unifyNewlines text), isBlank c = true

instance (text : List Char) : Decidable (Ended text) :=
  List.decidableBAll (isBlank · = true) (unended (unifyNewlines text))

/-- What is kept of the lines of a text. -/
def kept (lines : List (List Char)) : List String :=
  (lines.map fun line => String.ofList (trim line)).filter (· != "")

variable {line : String} {lines : List String}

theorem parse_eq (text : List Char) : parse text = kept (storedLines (unifyNewlines text)) := rfl

theorem kept_append (front back : List (List Char)) :
    kept (front ++ back) = kept front ++ kept back := by
  rw [kept, List.map_append, List.filter_append, kept, kept]

theorem kept_of_blank {cs : List Char} (blank : ∀ c ∈ cs, isBlank c = true) : kept [cs] = [] := by
  simp [kept, Text.trim_eq_nil_iff.mpr blank]

theorem kept_of_filled {cs : List Char} (filled : ¬∀ c ∈ cs, isBlank c = true) :
    kept [cs] = [String.ofList (trim cs)] := by
  have remains : trim cs ≠ [] := fun empty => filled (Text.trim_eq_nil_iff.mp empty)
  simp [kept, ← String.toList_inj, remains]

theorem Tidy.not_blank (tidy : Tidy line) : ¬∀ c ∈ line.toList, isBlank c = true := by
  rw [← Text.trim_eq_nil_iff, tidy.trimmed]
  exact fun empty => tidy.filled (String.toList_inj.mp empty)

theorem Tidy.kept (tidy : Tidy line) {front : List Char} (blank : ∀ c ∈ front, isBlank c = true) :
    kept [front ++ line.toList] = [line] := by
  have filled : ¬∀ c ∈ front ++ line.toList, isBlank c = true :=
    fun all => tidy.not_blank fun c mem => all c (List.mem_append_right front mem)
  rw [kept_of_filled filled, Text.trim_append_of_blank blank, tidy.trimmed, String.ofList_toList]

theorem Tidy.starts (tidy : Tidy line) : (line.toList ++ ['\n']).head? ≠ some '\n' := by
  cases started : line.toList with
  | nil => exact absurd (String.toList_inj.mp started) tidy.filled
  | cons c rest =>
      have bare := Text.drop_head_strip isBlank line.toList (x := c)
        (by rw [← Text.trim, tidy.trimmed, started]; rfl)
      rintro newline
      obtain rfl : c = '\n' := Option.some.inj newline
      exact absurd bare (by decide)

theorem toList_render_cons (line : String) (lines : List String) :
    (render (line :: lines)).toList = line.toList ++ '\n' :: (render lines).toList := by
  simp [render, String.join_cons]

/-- The lines of a text and what one more line makes of it, told apart by the line that is not
ended. -/
theorem exists_parse (text : List Char) :
    ∃ lines, parse text = lines ++ kept [unended (unifyNewlines text)] ∧
      ∀ line, Tidy line → parse (text ++ (line ++ "\n").toList) =
        lines ++ kept [unended (unifyNewlines text) ++ line.toList] := by
  obtain ⟨lines, read⟩ := Text.exists_storedLines (unifyNewlines text)
  have rest_whole := Text.whole_unended (unifyNewlines text)
  refine ⟨kept lines, ?_, ?_⟩
  · have all := read []
    rw [List.append_nil, List.append_nil, Text.storedLines_whole rest_whole] at all
    rw [parse_eq, all, kept_append]
    split
    · next empty => rw [empty]; rfl
    · rfl
  · intro line tidy
    have new : (line ++ "\n").toList = line.toList ++ ['\n'] := String.toList_append
    have plain : '\r' ∉ line.toList ++ ['\n'] := by
      simpa using tidy.whole.no_return
    have whole : Whole (unended (unifyNewlines text) ++ line.toList) := by
      intro c mem
      rcases List.mem_append.mp mem with mem | mem
      · exact rest_whole c mem
      · exact tidy.whole c mem
    rw [parse_eq, new, Text.unifyNewlines_append text tidy.starts, Text.unifyNewlines_eq_self plain,
      read, kept_append, ← List.append_assoc, Text.storedLines_cut whole rfl]
    rfl

/-- A line that is added behind an ended line is one more line. -/
theorem parse_append_line {text : List Char} (ended : Ended text) (tidy : Tidy line) :
    parse (text ++ (line ++ "\n").toList) = parse text ++ [line] := by
  obtain ⟨lines, before, after⟩ := exists_parse text
  rw [after line tidy, tidy.kept ended, before, kept_of_blank ended, List.append_nil]

/-- A line that is added behind one that is not ended makes no further line. -/
theorem length_parse_append_line {text : List Char} (unfinished : ¬Ended text) (tidy : Tidy line) :
    (parse (text ++ (line ++ "\n").toList)).length = (parse text).length := by
  obtain ⟨lines, before, after⟩ := exists_parse text
  have longer : ¬∀ c ∈ unended (unifyNewlines text) ++ line.toList, isBlank c = true :=
    fun all => unfinished fun c mem => all c (List.mem_append_left line.toList mem)
  rw [after line tidy, before, kept_of_filled longer, kept_of_filled unfinished]
  simp

theorem no_return_render (tidy : ∀ line ∈ lines, Tidy line) : '\r' ∉ (render lines).toList := by
  induction lines with
  | nil => decide
  | cons line lines ih =>
      have later := ih fun other mem => tidy other (List.mem_cons_of_mem line mem)
      have here := (tidy line List.mem_cons_self).whole.no_return
      rw [toList_render_cons]
      simp [here, later]

/-- Tidy lines are read back from the text that they are written to. -/
theorem parse_render (tidy : ∀ line ∈ lines, Tidy line) : parse (render lines).toList = lines := by
  rw [parse_eq, Text.unifyNewlines_eq_self (no_return_render tidy)]
  induction lines with
  | nil => rfl
  | cons line lines ih =>
      have first := tidy line List.mem_cons_self
      have later := ih fun other mem => tidy other (List.mem_cons_of_mem line mem)
      have blank : ∀ c ∈ ([] : List Char), isBlank c = true := List.forall_mem_nil _
      have alone := first.kept blank
      rw [toList_render_cons, Text.storedLines_cut first.whole rfl, ← List.singleton_append,
        kept_append, later]
      exact congrArg (· ++ lines) alone

theorem ended_line (text : List Char) (line : String) :
    Ended (text ++ (line ++ "\n").toList) := by
  have last := Text.getLast?_unifyNewlines (text ++ line.toList)
  obtain ⟨front, unified⟩ := List.getLast?_eq_some_iff.mp last
  have same : text ++ (line ++ "\n").toList = text ++ line.toList ++ ['\n'] := by simp
  rw [Ended, same, unified, Text.unended_concat_of_break front rfl]
  simp

theorem ended_render (lines : List String) : Ended (render lines).toList := by
  obtain rfl | ⟨front, line, rfl⟩ := List.eq_nil_or_concat lines
  · simp [Ended, render, unended, unifyNewlines, Text.unifyOnto]
  · have last : render [line] = line ++ "\n" := by simp [render]
    rw [List.concat_eq_append, render_append, last, String.toList_append]
    exact ended_line _ line

/-- The lines of whatever text are tidy. -/
theorem tidy_of_mem_parse {text : List Char} (mem : line ∈ parse text) : Tidy line := by
  obtain ⟨mem, filled⟩ := List.mem_filter.mp mem
  obtain ⟨stored, read, rfl⟩ := List.mem_map.mp mem
  have whole := Text.whole_of_mem_storedLines read
  refine ⟨?_, ?_, by simpa using filled⟩
  · rw [String.toList_ofList]
    exact fun c mem => whole c ((Text.trim_sublist stored).subset mem)
  · rw [String.toList_ofList, Text.trim_trim]

/-- A line is tidy when it is trimmed, unless it is blank or cut. -/
theorem tidy_of_trim_eq {r : Raw} (trimmed : Raw.trim r = Raw.ofString line)
    (whole : Raw.Whole (Raw.trim r)) (filled : Raw.trim r ≠ []) : Tidy line where
  whole := by rwa [trimmed, Raw.whole_ofString] at whole
  trimmed := by
    have again := Raw.trim_trim r
    rw [trimmed, Raw.trim_ofString, Raw.ofString_inj] at again
    rw [← again, String.toList_ofList, Text.trim_trim]
  filled := by
    rintro rfl
    exact filled trimmed

end History

end WordMachine
