import Scriptlet.Machine.Basic

/-! Evaluation of program trees. A `return` only records its value; every other node looks after each
of its parts whether a return is under way, and if so stops. Evaluation takes fuel, one unit for each
level of recursion and for each turn of a loop. -/

namespace Scriptlet

/-- A computation on a machine. It has no result if the fuel runs out, and an error keeps the state
in which it arose. -/
abbrev Eval := ExceptT RuntimeError (StateT Machine Option)

namespace Eval

def outOfFuel : Eval α := fun _ => none

def fail (position : Position) (fault : RuntimeFault) : Eval α := do
  throw ((← get).error position fault)

def isReturning : Eval Bool := do return (← get).returned.isSome

/-- Runs a computation with a new innermost frame, which is dropped however the computation ends. -/
def inFrame (body : Eval α) : Eval α := fun m => do
  let (outcome, m) ← body { m with frames := {} :: m.frames }
  return (outcome, { m with frames := m.frames.tail })

/-- The value of a condition, nothing if a return is under way. -/
def condition (construct : Conditional) (position : Position) (body : Eval Value) :
    Eval (Option Bool) := do
  let value ← body
  if ← isReturning then return none
  match value with
  | .bool b => return some b
  | _ => fail position (.badCondition construct value)

/-- Runs the body of a function in a scope of its own: the global frame and a frame with the
parameters. However the body ends, the caller's scope is back in place and one name is taken off the
active functions. -/
def inCall (d : Definition) (args : List Value) (body : Eval Value) : Eval Value := fun m => do
  let callee := { m with
    frames := [Frame.ofParameters d.params args]
    returned := none
    calls := d.name :: m.calls }
  let (outcome, after) ← body callee
  return (outcome.map fun _ => after.returned.getD .empty,
    { after with frames := m.frames, returned := m.returned, calls := after.calls.tail })

def callFunction (position : Position) (f : FunctionRef) (args : List Value)
    (run : Node → Eval Value) : Eval Value := do
  let m ← get
  let d := m.definition f
  if args.length ≠ d.params.length then
    fail position (.arity d.name d.params.length args.length)
  else if m.depthLimit ≤ m.calls.length then fail position (.overflow m.depthLimit d.name)
  else if d.body.isAbsent then fail position (.noBody d.name)
  else inCall d args (run d.body)

def callNative (position : Position) (name : String) (args : List Value) : Eval Value :=
  match Native.ofName? name with
  | none => fail position (.unknownNative name)
  | some f => do
    let m ← get
    let (outcome, sink) := f.apply args m.sink
    set { m with sink }
    match outcome with
    | .ok value => return value
    | .error fault => fail position (.native fault)

def call (position : Position) (callee : Value) (args : List Value) (run : Node → Eval Value) :
    Eval Value :=
  match callee with
  | .native name => callNative position name args
  | .function f => callFunction position f args run
  | _ => fail position (.notCallable callee)

end Eval

open Eval

mutual

def eval (fuel : Nat) (node : Node) : Eval Value :=
  match fuel with
  | 0 => outOfFuel
  | fuel + 1 =>
    match node with
    | .absent => fail {} .unsupported
    | .unknown position => fail position .unsupported
    | .const _ value => return value
    | .get position name => do
      match (← get).lookup name with
      | some value => return value
      | none => fail position (.unknownVariable name)
    | .set _ name value => do
      let value ← eval fuel value
      unless ← isReturning do modify (·.assign name value)
      return .empty
    | .block _ statements => inFrame (evalStatements fuel .empty statements)
    | .branch _ test action otherwise => do
      match ← condition .branch test.position (eval fuel test) with
      | none => return .empty
      | some true => eval fuel action
      | some false => if otherwise.isAbsent then return .empty else eval fuel otherwise
    | .loop _ test action => evalLoop fuel test action
    | .ret _ value => do
      let value ← eval fuel value
      unless ← isReturning do modify ({ · with returned := some value })
      return value
    | .call position function arguments => do
      let callee ← eval fuel function
      if ← isReturning then return .empty
      match ← evalArguments fuel arguments with
      | none => return .empty
      | some args => call position callee args fun body => eval fuel body
    | .member position _ name => fail position (.memberAccess name)

/-- Runs statements in order, up to a return. The value is that of the last one that ran, or `last`
if none did. -/
def evalStatements (fuel : Nat) (last : Value) (statements : List Node) : Eval Value :=
  match fuel with
  | 0 => outOfFuel
  | fuel + 1 =>
    match statements with
    | [] => return last
    | node :: rest => do
      let value ← eval fuel node
      if ← isReturning then return value
      evalStatements fuel value rest

/-- The values of arguments from left to right, nothing if a return is under way. -/
def evalArguments (fuel : Nat) (arguments : List Node) : Eval (Option (List Value)) :=
  match fuel with
  | 0 => outOfFuel
  | fuel + 1 =>
    match arguments with
    | [] => return some []
    | node :: rest => do
      let value ← eval fuel node
      if ← isReturning then return none
      return (← evalArguments fuel rest).map (value :: ·)

def evalLoop (fuel : Nat) (test action : Node) : Eval Value :=
  match fuel with
  | 0 => outOfFuel
  | fuel + 1 => do
    match ← condition .loop test.position (eval fuel test) with
    | some true =>
      let _ ← eval fuel action
      if ← isReturning then return .empty
      evalLoop fuel test action
    | _ => return .empty

end

end Scriptlet
