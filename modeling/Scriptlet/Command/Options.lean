import Scriptlet.Number.Decimal
import Scriptlet.Text.Quoted

/-! The words of a command line. Options may stand anywhere among the other words, since they are read in
rounds: a round reads the options at the front, and the next one starts behind the word that ended it.
What reads the options of one round is a parameter. -/

namespace Scriptlet.Command

structure Options where
  verbose : Bool := false
  ignoreExtension : Bool := false
  timing : Bool := false
  noColor : Bool := false
  /-- Zero stands for the default. -/
  maxDepth : Int := 0
  help : Bool := false
  deriving DecidableEq, Repr, Inhabited

/-- One option as it was read. An option that takes no value has an empty one. -/
structure Flag where
  letter : Char
  value : String := ""
  deriving DecidableEq, Repr

inductive OptionError where
  | unknown (program : String) (letter : Char)
  | missingValue (program : String) (letter : Char)
  | badDepth (value : String)
  deriving DecidableEq, Repr

def OptionError.message : OptionError → String
  | unknown program letter => program ++ ": unknown option -" ++ letter.toString
  | missingValue program letter => program ++ ": expected argument for -" ++ letter.toString
  | badDepth value => "invalid -d parameter " ++ Text.quote value

/-- Reads the options at the front of a line, whose first word is the name of the program. The index is
that of the first word which has not been read. -/
structure OptionReader where
  read : List String → Except OptionError (List Flag × Nat)
  /-- The name of the program counts as read. -/
  advances : ∀ {line flags index}, read line = .ok (flags, index) → 0 < index

/-- Whether there is a minus sign, and what follows the sign if there is one. -/
def splitSign : List Char → Bool × List Char
  | '-' :: rest => (true, rest)
  | '+' :: rest => (false, rest)
  | chars => (false, chars)

/-- A decimal integer of 64 bits, with or without a sign. -/
def integer? (text : String) : Option Int :=
  let (negative, digits) := splitSign text.toList
  if digits.isEmpty || !digits.all Number.isDigit then none
  else
    let n := if negative then -Int.ofNat (Number.ofDigits digits) else Int.ofNat (Number.ofDigits digits)
    if -Int.ofNat (Nat.pow 2 63) ≤ n ∧ n < Int.ofNat (Nat.pow 2 63) then some n else none

/-- What an option changes. Letters without a meaning change nothing. -/
def Options.apply (options : Options) (flag : Flag) : Except OptionError Options :=
  match flag.letter with
  | 'v' => .ok { options with verbose := true }
  | 'e' => .ok { options with ignoreExtension := true }
  | 't' => .ok { options with timing := true }
  | 'n' => .ok { options with noColor := true }
  | 'd' => match integer? flag.value with
    | none => .error (.badDepth flag.value)
    | some n => if n ≤ 0 then .error (.badDepth flag.value) else .ok { options with maxDepth := n }
  | 'h' => .ok { options with help := true }
  | _ => .ok options

/-- One round after the other. The word that ends a round is set aside, and the name of the program takes
its place in front of the words behind it. -/
def readRounds (reader : OptionReader) (program : String) (rest : List String) (options : Options)
    (others : List String) : Except OptionError (Options × List String) :=
  match _read : reader.read rest with
  | .error e => .error e
  | .ok (flags, index) =>
    match flags.foldlM Options.apply options with
    | .error e => .error e
    | .ok options =>
      if _ended : rest.length ≤ index then .ok (options, others)
      else readRounds reader program (program :: rest.drop (index + 1)) options (others ++ [rest[index]])
termination_by rest.length
decreasing_by
  have := reader.advances _read
  simp only [List.length_cons, List.length_drop]
  omega

/-- All options of a command line, and its other words in order. -/
def readWords (reader : OptionReader) (program : String) (words : List String) :
    Except OptionError (Options × List String) :=
  readRounds reader program (program :: words) {} []

end Scriptlet.Command
