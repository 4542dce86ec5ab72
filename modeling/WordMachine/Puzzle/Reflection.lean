/-!
# Reflected texts

A text as it is read in a looking glass: from its end, with four letters taking each other's shape.
Reading it so twice gives the text back.
-/

namespace WordMachine.Puzzle

/-- A letter as it is seen reflected. -/
def reflectChar : Char → Char
  | 'b' => 'd'
  | 'd' => 'b'
  | 'p' => 'q'
  | 'q' => 'p'
  | c => c

def reflect (text : String) : String := String.ofList (text.toList.reverse.map reflectChar)

theorem reflectChar_reflectChar (c : Char) : reflectChar (reflectChar c) = c := by
  by_cases hb : c = 'b'
  · subst hb; rfl
  by_cases hd : c = 'd'
  · subst hd; rfl
  by_cases hp : c = 'p'
  · subst hp; rfl
  by_cases hq : c = 'q'
  · subst hq; rfl
  simp_all [reflectChar]

theorem reflect_reflect (text : String) : reflect (reflect text) = text := by
  simp [reflect, Function.comp_def, reflectChar_reflectChar]

end WordMachine.Puzzle
