import Scriptlet.Grammar.Program
import Scriptlet.Machine.Eval

/-! Running programs, and sessions in which one chunk of source after another runs on the same
machine. -/

namespace Scriptlet

/-- Why a source text gave no value. -/
inductive Failure where
  | source (e : SourceError)
  | runtime (e : RuntimeError)
  deriving DecidableEq, Repr

def Failure.message : Failure → String
  | source e => e.message
  | runtime e => e.message

namespace Machine

/-- The value of a finished run: that of a `return` at the top level, or else `last`. -/
def outcome (m : Machine) (last : Value) : Value := m.returned.getD last

/-- Runs a program from its main part on a machine whose functions are those of the program alone. -/
def execute (fuel : Nat) (functions : List Definition) (main : Node) (m : Machine) :
    Option (Except RuntimeError Value × Machine) := do
  let ready := { m with globals := {}, frames := [], returned := none, calls := [] }
  let (outcome, after) ← eval fuel main (ready.defineAll functions)
  return (outcome.map fun _ => after.outcome .empty, after)

/-- Makes a text the one that messages refer to. -/
def setSource (m : Machine) (file text : String) : Machine :=
  { m with source := .ofText file text }

def run (fuel : Nat) (program : Program) (m : Machine) :
    Option (Except RuntimeError Value × Machine) :=
  m.execute fuel program.functions program.main

/-- Reads and runs a whole program. A text that cannot be read leaves the machine as it is. -/
def runSource (fuel : Nat) (file text : String) (m : Machine) :
    Option (Except Failure Value × Machine) :=
  match Program.ofSource text with
  | .error e => some (.error (.source e), m)
  | .ok program => do
    let (outcome, after) ← (m.setSource file text).run fuel program
    return (outcome.mapError .runtime, after)

/-- Runs the statements of one chunk. Its functions are added to those declared before, its variables
are those of the session, and its value is that of its last statement or of a top-level `return`. -/
def runProgramChunk (fuel : Nat) (program : Program) (m : Machine) :
    Option (Except RuntimeError Value × Machine) := do
  let ready := { m.defineAll program.functions with
    frames := [m.session], returned := none, calls := [] }
  let (outcome, after) ← evalStatements fuel .empty program.statements ready
  return (outcome.map after.outcome,
    { after with session := after.frames.headD m.session, returned := none })

/-- Reads and runs one chunk of a session. -/
def runChunk (fuel : Nat) (file text : String) (m : Machine) :
    Option (Except Failure Value × Machine) :=
  let m := m.setSource file text
  match Program.ofFragment text with
  | .error e => some (.error (.source e), m)
  | .ok program => do
    let (outcome, after) ← m.runProgramChunk fuel program
    return (outcome.mapError .runtime, after)

/-- Forgets all functions and variables. -/
def reset (m : Machine) : Machine :=
  { m with definitions := #[], globals := {}, session := {}, frames := [], returned := none }

/-- The variables of the session in the order of their names. -/
def sessionEntries (m : Machine) : List (String × Value) := m.session.sorted

/-- The declared functions in the order of their names. A name that has been given another value is
not among them. -/
def functions (m : Machine) : List (String × Definition) :=
  m.globals.sorted.filterMap fun
    | (name, .function f) => some (name, m.definition f)
    | _ => none

/-- The declared function of a name. -/
def function? (m : Machine) (name : String) : Option Definition :=
  match m.globals.get? name with
  | some (.function f) => some (m.definition f)
  | _ => none

end Machine
end Scriptlet
