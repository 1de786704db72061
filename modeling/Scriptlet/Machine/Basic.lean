import Scriptlet.Machine.Fault
import Scriptlet.Machine.Frame
import Scriptlet.Node.Basic
import Scriptlet.Text.Lines

/-! The state of a running program. -/

namespace Scriptlet

/-- The text that is being run, for messages. -/
structure Source where
  file : String := ""
  lines : List String := []
  deriving DecidableEq, Repr, Inhabited

def Source.ofText (file text : String) : Source := ⟨file, Text.lines text⟩

/-- The text of a line, empty if there is no such line. -/
def Source.line (s : Source) (number : Int) : String :=
  if 0 < number then (s.lines[number.toNat - 1]?).getD "" else ""

structure Machine where
  /-- All functions declared so far. A function value holds an index into this table. -/
  definitions : Array Definition := #[]
  /-- The outermost frame. It binds the declared functions and every call sees it. -/
  globals : Frame := {}
  /-- The variables that a session keeps between its chunks. -/
  session : Frame := {}
  /-- The frames of the running call, the innermost first. The global frame lies below them. -/
  frames : List Frame := []
  /-- The value of a `return` that is under way. -/
  returned : Option Value := none
  /-- The names of the active functions, the innermost first. -/
  calls : List String := []
  source : Source := {}
  sink : Sink := {}
  /-- The greatest number of active functions. -/
  depthLimit : Nat
  deriving Repr

namespace Machine

def defaultDepthLimit : Nat := 10000

/-- A machine without functions and variables. A depth limit of zero or less stands for the default. -/
def new (depthLimit : Int) (sink : Sink) (file : String) : Machine where
  depthLimit := if depthLimit ≤ 0 then defaultDepthLimit else depthLimit.toNat
  sink := sink
  source := { file := file }

/-- The definition behind a function value. A value without one counts as a function without
parameters and body. -/
def definition (m : Machine) (f : FunctionRef) : Definition :=
  m.definitions[f.index]?.getD ⟨f.name, [], .absent⟩

/-- The value of a variable: that of the innermost frame that binds it, or else the built-in function
of that name. -/
def lookup (m : Machine) (name : String) : Option Value :=
  (m.frames.findSome? (·.get? name)).or <|
    (m.globals.get? name).or <| (Native.ofName? name).map fun _ => .native name

/-- Overwrites the innermost binding of a name, if there is one. -/
def overwrite? (name : String) (value : Value) : List Frame → Option (List Frame)
  | [] => none
  | frame :: outer =>
    if frame.binds name then some (frame.set name value :: outer)
    else (overwrite? name value outer).map (frame :: ·)

/-- Sets a variable in the innermost frame that binds it, or else in the innermost frame. -/
def assign (m : Machine) (name : String) (value : Value) : Machine :=
  match overwrite? name value m.frames with
  | some frames => { m with frames }
  | none =>
    match m.frames with
    | [] => { m with globals := m.globals.set name value }
    | frame :: outer =>
      if m.globals.binds name then { m with globals := m.globals.set name value }
      else { m with frames := frame.set name value :: outer }

/-- Adds a declaration. -/
def define (m : Machine) (d : Definition) : Machine :=
  { m with
    definitions := m.definitions.push d
    globals := m.globals.set d.name (.function ⟨d.name, m.definitions.size⟩) }

def defineAll (m : Machine) (functions : List Definition) : Machine := functions.foldl define m

/-- The error for a fault at a place, with the current file, line and active functions. -/
def error (m : Machine) (position : Position) (fault : RuntimeFault) : RuntimeError :=
  ⟨fault, position, m.source.file, m.source.line position.line, m.calls⟩

end Machine
end Scriptlet
