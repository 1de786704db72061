import Scriptlet.Machine.Native
import Scriptlet.Position

/-! What can go wrong while a program runs, and how it is reported. -/

namespace Scriptlet

/-- The statements that have a condition. -/
inductive Conditional where
  | branch
  | loop
  deriving DecidableEq, Repr

def Conditional.word : Conditional → String
  | branch => "if"
  | loop => "while"

inductive RuntimeFault where
  | unknownVariable (name : String)
  | unknownNative (name : String)
  | badCondition (construct : Conditional) (given : Value)
  | unsupported
  | memberAccess (name : String)
  | notCallable (given : Value)
  | noBody (function : String)
  | arity (function : String) (expected given : Nat)
  | overflow (limit : Nat) (function : String)
  | native (fault : NativeFault)
  deriving DecidableEq, Repr

namespace RuntimeFault

/-- The class of a fault. -/
def kind : RuntimeFault → String
  | unknownVariable _ | unknownNative _ => "unknown variable"
  | badCondition .. | unsupported => "type mismatch"
  | memberAccess _ => "unsupported member access"
  | notCallable _ | noBody _ => "not callable"
  | arity .. => "arity mismatch"
  | overflow .. => "stack overflow"
  | native (.divisionByZero _) => "division by zero"
  | native (.arity ..) | native (.argument ..) => "native argument"
  | native .refusedWrite => "native failure"

def describe : RuntimeFault → String
  | unknownVariable name => "Unknown variable " ++ Text.quote name
  | unknownNative name => "Unknown native function " ++ Text.quote name
  | badCondition construct given =>
    "Condition of " ++ construct.word ++ " must be Bool, got " ++ given.debug
  | unsupported => "Unsupported expression"
  | memberAccess name => "Member access ." ++ name ++ " is not supported"
  | notCallable given => given.debug ++ " is not callable"
  | noBody function => "Function " ++ Text.quote function ++ " has no body"
  | arity function expected given =>
    "Function " ++ Text.quote function ++ " expects " ++ expected.repr ++ " args, got " ++ given.repr
  | overflow limit function =>
    "Maximum call depth of " ++ limit.repr ++ " exceeded calling " ++ Text.quote function
  | native (.divisionByZero _) => "Division by zero"
  | native fault => fault.message

/-- The text of the fault of a built-in function behind this one. -/
def cause? : RuntimeFault → Option String
  | native fault => some fault.message
  | _ => none

end RuntimeFault

/-- A message about a place in a source text, with the text of its line and the functions that were
active, the innermost first. -/
structure Report where
  file : String
  position : Position
  message : String
  line : String
  stack : List String

namespace Report

/-- Lines for the active functions. A function that called itself is shown once with a count. -/
def stackLines : List String → List String
  | [] => []
  | name :: rest =>
    let run := 1 + (rest.takeWhile (· == name)).length
    let count := if run > 1 then " x" ++ run.repr else ""
    ("  at " ++ name ++ "()" ++ count) :: stackLines (rest.dropWhile (· == name))
termination_by stack => stack.length
decreasing_by
  have := (List.dropWhile_sublist (l := rest) (· == name)).length_le
  simp only [List.length_cons]
  omega

def place (r : Report) : String :=
  if r.position.isKnown then
    (if r.file.isEmpty then "<input>" else r.file) ++ ":" ++ r.position.text
  else "unknown:0:0"

/-- The source line and a caret under the column of the position. -/
def excerpt (r : Report) : List String :=
  if r.line.isEmpty || r.position.line ≤ 0 then []
  else
    let margin := "  " ++ toString r.position.line ++ " | "
    let indent := (margin.length + (r.position.col - 1)).toNat
    [margin ++ r.line, String.ofList (List.replicate indent ' ') ++ "^"]

def render (r : Report) : String :=
  let stack := if r.stack.isEmpty then [] else "Stack:" :: stackLines r.stack
  let text := "\n".intercalate
    (["Runtime error at " ++ r.place, "  " ++ r.message] ++ r.excerpt ++ stack)
  String.ofList (text.toList.reverse.dropWhile (· == '\n')).reverse

end Report

/-- A fault and where it arose. -/
structure RuntimeError where
  fault : RuntimeFault
  position : Position
  file : String
  line : String
  stack : List String
  deriving DecidableEq, Repr

def RuntimeError.report (e : RuntimeError) : Report :=
  ⟨e.file, e.position, e.fault.describe, e.line, e.stack⟩

def RuntimeError.message (e : RuntimeError) : String := e.report.render

end Scriptlet
