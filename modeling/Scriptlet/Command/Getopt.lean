import Scriptlet.Command.Options

/-! Reading the options at the front of a line. Several letters may share a dash, and the value of a letter
is the rest of its word or the next word. -/

namespace Scriptlet.Command

/-- The letters of options, each with whether it takes a value. -/
abbrev Letters := List (Char × Bool)

/-- The options of letters that share a dash, and the letter whose value is still to come. -/
def cluster (letters : Letters) (program : String) :
    List Char → Except OptionError (List Flag × Option Char)
  | [] => .ok ([], none)
  | letter :: rest =>
    match letters.lookup letter with
    | none => .error (.unknown program letter)
    | some false => (cluster letters program rest).map fun (flags, waiting) => (⟨letter, ""⟩ :: flags, waiting)
    | some true =>
      if rest.isEmpty then .ok ([], some letter) else .ok ([⟨letter, String.ofList rest⟩], none)

/-- Words that hold options start with a dash and go on. -/
def isOptionWord (word : String) : Bool :=
  match word.toList with
  | '-' :: _ :: _ => true
  | _ => false

/-- The options up to the first word that holds none, and the number of words read. A double dash ends
them and is read with them. -/
def frontFlags (letters : Letters) (program : String) : List String → Except OptionError (List Flag × Nat)
  | [] => .ok ([], 0)
  | word :: rest =>
    if !isOptionWord word then .ok ([], 0)
    else if word = "--" then .ok ([], 1)
    else match cluster letters program (word.toList.drop 1) with
      | .error e => .error e
      | .ok (flags, none) =>
        (frontFlags letters program rest).map fun (later, read) => (flags ++ later, read + 1)
      | .ok (flags, some letter) =>
        match rest with
        | [] => .error (.missingValue program letter)
        | value :: rest =>
          (frontFlags letters program rest).map fun (later, read) => (flags ++ ⟨letter, value⟩ :: later, read + 2)

/-- The reader for some letters. -/
def getopt (letters : Letters) : OptionReader where
  read
    | [] => .ok ([], 1)
    | program :: words => (frontFlags letters program words).map fun (flags, read) => (flags, read + 1)
  advances {line flags index} read := by
    cases line with
    | nil =>
      cases read
      exact Nat.one_pos
    | cons program words =>
      simp only at read
      cases found : frontFlags letters program words with
      | error e =>
        rw [found] at read
        cases read
      | ok result =>
        rw [found] at read
        cases read
        exact Nat.succ_pos result.2

/-- The letters of the command line program. -/
def letters : Letters := [('v', false), ('e', false), ('t', false), ('d', true), ('n', false), ('h', false)]

end Scriptlet.Command
