import WordMachine.Text.Digit
import WordMachine.Text.Quoted

/-!
# Argument lists

The grammar of argument lists: named positions, and switches that may stand among them. A long
switch may be cut short where it stays unambiguous, a value may be tied to it by `=`, and after the
marker `--` nothing is a switch. Markers are treated as in argparse 3.11: one is dropped from the
arguments of each position and each switch, so that a value which reads like it is lost. Other
versions may keep such a value. Parsing lists what was given in order, then says what was wrong with
the rest; what was given before an error counts, since it may already end the run.
-/

namespace WordMachine.Arguments

structure Switch where
  names : List String
  takesValue : Bool := false
  deriving DecidableEq, Repr

/-- The switches and the positions, all of which have to be filled. -/
structure Grammar where
  switches : List Switch := []
  positions : List String := []

inductive ArgumentError where
  | ambiguous (text : String) (candidates : List String)
  | valueMissing (name : String)
  | valueIgnored (name value : String)
  | required (names : List String)
  | unrecognized (texts : List String)
  | invalid (name problem : String)
  deriving DecidableEq, Repr

def ArgumentError.message : ArgumentError → String
  | .ambiguous text candidates =>
      s!"ambiguous option: {text} could match " ++ ", ".intercalate candidates
  | .valueMissing name => s!"argument {name}: expected one argument"
  | .valueIgnored name value =>
      s!"argument {name}: ignored explicit argument " ++ Text.quote value
  | .required names => "the following arguments are required: " ++ ", ".intercalate names
  | .unrecognized texts => "unrecognized arguments: " ++ " ".intercalate texts
  | .invalid name problem => s!"argument {name}: {problem}"

/-- Something given: the value of a position or of a switch, unless it was lost as a marker, or a
switch that takes no value. -/
inductive Given where
  | position (name : String) (value : Option String)
  | value (switch : Switch) (value : Option String)
  | flag (switch : Switch)
  deriving DecidableEq, Repr

/-- What was given, and the arguments left over or the error that ended the parsing. -/
structure Parsed where
  given : List Given
  outcome : Except ArgumentError (List String)

/-- An argument as it is first sorted: a switch that may be unknown or have a value tied to it, the
marker, or anything else. -/
inductive Token where
  | argument (text : String)
  | marker
  | unknown (text : String)
  | switch (switch : Switch) (name : String) (tied : Option String)
  deriving DecidableEq, Repr

def Switch.title (s : Switch) : String := "/".intercalate s.names

/-- A text cut at the first `=`. -/
def cutAtEquals (text : String) : String × Option String :=
  let cs := text.toList
  match cs.dropWhile (· ≠ '=') with
  | [] => (text, none)
  | _ :: rest => (String.ofList (cs.takeWhile (· ≠ '=')), some (String.ofList rest))

/-- Whether a text writes a negative number: digits, with a point among or before them. -/
def isNegativeNumber (text : String) : Bool :=
  let isDigit c := (Text.decimalValue? c).isSome
  let body := if text.toList.getLast? = some '\n' then text.toList.dropLast else text.toList
  match body with
  | '-' :: cs =>
      match cs.dropWhile isDigit with
      | [] => !cs.isEmpty
      | '.' :: places => !places.isEmpty && places.all isDigit
      | _ => false
  | _ => false

namespace Grammar

def named (g : Grammar) : List (String × Switch) :=
  g.switches.flatMap fun s => s.names.map (·, s)

/-- The switches that a text starting with a dash may be short for. -/
def candidates (g : Grammar) (text : String) : List (String × Switch × Option String) :=
  if text.startsWith "--" then
    let (start, value) := cutAtEquals text
    (g.named.filter fun (name, _) => name.startsWith start).map fun (name, s) => (name, s, value)
  else
    let short := String.ofList (text.toList.take 2)
    g.named.filterMap fun (name, s) =>
      if name = short then some (name, s, some (String.ofList (text.toList.drop 2)))
      else if name.startsWith text then some (name, s, none)
      else none

def token (g : Grammar) (text : String) : Except ArgumentError Token :=
  if !text.startsWith "-" then .ok (.argument text)
  else
    match g.named.lookup text with
    | some s => .ok (.switch s text none)
    | none =>
        if text = "-" then .ok (.argument text)
        else
          let (start, value) := cutAtEquals text
          match value, g.named.lookup start with
          | some value, some s => .ok (.switch s start (some value))
          | _, _ =>
              match g.candidates text with
              | [(name, s, tied)] => .ok (.switch s name tied)
              | [] =>
                  if isNegativeNumber text || text.contains ' ' then .ok (.argument text)
                  else .ok (.unknown text)
              | several => .error (.ambiguous text (several.map (·.1)))

def tokens (g : Grammar) : List String → Except ArgumentError (List Token)
  | [] => .ok []
  | text :: rest =>
      if text = "--" then .ok (.marker :: rest.map .argument)
      else do return (← g.token text) :: (← g.tokens rest)

/-- How a cluster of switches behind one dash ends. -/
inductive ClusterEnd where
  | value (switch : Switch) (value : String)
  | bare (switch : Switch)

/-- The switches in a cluster: those without a value in front, then its end. What is tied to a short
switch that takes no value has to be more switches. -/
def cluster (g : Grammar) (s : Switch) (name : String) :
    List Char → Except ArgumentError (List Switch × ClusterEnd)
  | [] =>
      if s.takesValue then .ok ([], .value s "") else .error (.valueIgnored s.title "")
  | c :: cs =>
      let value := String.ofList (c :: cs)
      let next := String.ofList ['-', c]
      if s.takesValue then .ok ([], .value s value)
      else
        match if name.startsWith "--" then none else g.named.lookup next with
        | none => .error (.valueIgnored s.title value)
        | some s' =>
            match cs with
            | [] => .ok ([s], .bare s')
            | d :: rest => (g.cluster s' next (d :: rest)).map fun (ss, e) => (s :: ss, e)

/-- The switches that a token stands for. -/
def expand (g : Grammar) (s : Switch) (name : String) :
    Option String → Except ArgumentError (List Switch × ClusterEnd)
  | none => .ok ([], .bare s)
  | some tied => g.cluster s name tied.toList

/-- A value, unless it reads like the marker. -/
def unlessMarker (text : String) : Option String := if text = "--" then none else some text

/-- The end of a list: positions that are still free are missing. -/
def finish (positions : List String) (given : List Given) (extras : List String) :
    Parsed :=
  { given := given.reverse
    outcome := if positions.isEmpty then .ok extras.reverse else .error (.required positions) }

/-- What tokens give, with the positions still free, and what was given and left over before them in
reverse. -/
def parseFrom (g : Grammar) :
    List Token → List String → List Given → List String → Parsed
  | [], positions, given, extras => finish positions given extras
  | .unknown text :: rest, positions, given, extras =>
      parseFrom g rest positions given (text :: extras)
  | .switch s name tied :: rest, positions, given, extras =>
      match g.expand s name tied with
      | .error e => { given := given.reverse, outcome := .error e }
      | .ok (flags, ending) =>
          let given' := (flags.map Given.flag).reverse ++ given
          match ending with
          | .value s text =>
              parseFrom g rest positions (.value s (unlessMarker text) :: given') extras
          | .bare s =>
              if s.takesValue then
                match rest with
                | .argument text :: rest =>
                    parseFrom g rest positions (.value s (unlessMarker text) :: given') extras
                | _ => { given := given.reverse, outcome := .error (.valueMissing s.title) }
              else parseFrom g rest positions (.flag s :: given') extras
  | .marker :: .argument text :: rest, position :: positions, given, extras =>
      parseFrom g rest positions (.position position (some text) :: given) extras
  | .argument text :: .marker :: rest, position :: positions, given, extras =>
      parseFrom g rest positions (.position position (some text) :: given) extras
  | .argument text :: rest, position :: positions, given, extras =>
      parseFrom g rest positions (.position position (unlessMarker text) :: given) extras
  | .argument text :: rest, [], given, extras => parseFrom g rest [] given (text :: extras)
  | .marker :: rest, positions, given, extras =>
      parseFrom g rest positions given ("--" :: extras)

def parse (g : Grammar) (argv : List String) : Parsed :=
  match g.tokens argv with
  | .error e => { given := [], outcome := .error e }
  | .ok tokens => parseFrom g tokens g.positions [] []

end Grammar

end WordMachine.Arguments
