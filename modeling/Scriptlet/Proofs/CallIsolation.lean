import Mathlib.Control.Monad.Basic
import Scriptlet.Proofs.EvalSimulation
import Scriptlet.Proofs.ScopeView

/-! What a call and its caller have to do with each other. Of the caller's machine a call changes the global frame
and the sink and nothing else, however it ends. And of that machine it sees only what all calls share: neither the
variables of the caller nor a return under way nor who the callers are makes any difference to it. -/

namespace Scriptlet.Proofs.CallIsolation
open Eval EvalFuel StructuredReturn EvalChange EvalSimulation ScopeView

/-- The parts of a machine that nothing in a program can change. -/
structure SameSetting (m after : Machine) : Prop where
  definitions : after.definitions = m.definitions
  session : after.session = m.session
  source : after.source = m.source
  depthLimit : after.depthLimit = m.depthLimit

theorem sameSetting_respected : Respected SameSetting where
  refl m := ⟨rfl, rfl, rfl, rfl⟩
  trans first second := ⟨second.definitions.trans first.definitions, second.session.trans first.session,
    second.source.trans first.source, second.depthLimit.trans first.depthLimit⟩
  assign m name value := by
    rw [assign_eq]
    exact ⟨rfl, rfl, rfl, rfl⟩
  record m value := ⟨rfl, rfl, rfl, rfl⟩
  write m f args := ⟨rfl, rfl, rfl, rfl⟩
  block inside := ⟨inside.definitions, inside.session, inside.source, inside.depthLimit⟩
  call inside := ⟨inside.definitions, inside.session, inside.source, inside.depthLimit⟩

/-- The same call is running, under the same limit. -/
structure SameCall (m after : Machine) : Prop where
  calls : after.calls = m.calls
  limit : after.depthLimit = m.depthLimit

/-- Every call takes the name off again that it has put on the stack. -/
theorem sameCall_respected : Respected SameCall where
  refl _ := ⟨rfl, rfl⟩
  trans first second := ⟨second.calls.trans first.calls, second.limit.trans first.limit⟩
  assign m name value := by
    rw [assign_eq]
    exact ⟨rfl, rfl⟩
  record _ _ := ⟨rfl, rfl⟩
  write _ _ _ := ⟨rfl, rfl⟩
  block inside := ⟨inside.calls, inside.limit⟩
  call inside := ⟨congrArg List.tail inside.calls, inside.limit⟩

section Calls
variable {position : Position} {f : FunctionRef} {args : List Value} {run : Node → Eval Value} {m after : Machine}
  {outcome : Except RuntimeError Value}

theorem callFunction_cases (ran : callFunction position f args run m = some (outcome, after)) :
    after = m ∨ ∃ result inside,
      run (m.definition f).body (beginCall m (m.definition f) args) = some (result, inside) ∧
        after = endCall m inside := by
  rw [callFunction_eq] at ran
  split at ran
  · cases ran
    exact Or.inl rfl
  · rw [inCall_eq] at ran
    obtain ⟨⟨result, inside⟩, reached, done⟩ := Option.map_eq_some_iff.mp ran
    cases done
    exact Or.inr ⟨result, inside, reached, rfl⟩

private theorem callFunction_changes {fuel : Nat}
    (ran : callFunction position f args (eval fuel) m = some (outcome, after)) :
    after = { m with globals := after.globals, sink := after.sink } := by
  rcases callFunction_cases ran with rfl | ⟨result, inside, reached, rfl⟩
  · rfl
  · have kept := sameSetting_respected.call (eval_within sameSetting_respected fuel _ _ _ _ reached)
    have balanced := sameCall_respected.call (eval_within sameCall_respected fuel _ _ _ _ reached)
    rw [← kept.definitions, ← kept.session, ← kept.source, ← kept.depthLimit, ← balanced.calls]
    rfl

end Calls

/-- Machines that agree on what all calls share. -/
structure Agree (m n : Machine) : Prop where
  definitions : m.definitions = n.definitions
  globals : m.globals.get? = n.globals.get?
  depth : m.calls.length = n.calls.length
  depthLimit : m.depthLimit = n.depthLimit
  sink : m.sink = n.sink

/-- Machines that also agree on the running call. -/
structure AgreeInCall (m n : Machine) : Prop extends Agree m n where
  frames : m.frames.map Frame.get? = n.frames.map Frame.get?
  returned : m.returned = n.returned

def SameFaultAndPlace (e f : RuntimeError) : Prop := e.fault = f.fault ∧ e.position = f.position

variable {m n after final : Machine}

theorem Agree.definition (agree : Agree m n) (f : FunctionRef) : m.definition f = n.definition f := by
  rw [Machine.definition, Machine.definition, agree.definitions]

theorem Agree.refusal (agree : Agree m n) (f : FunctionRef) (args : List Value) :
    refusal? m f args = refusal? n f args := by
  rw [refusal?, refusal?, agree.definition, agree.depth, agree.depthLimit]

theorem Agree.beginCall (agree : Agree m n) (d : Definition) (args : List Value) :
    AgreeInCall (beginCall m d args) (beginCall n d args) where
  definitions := agree.definitions
  globals := agree.globals
  depth := congrArg (· + 1) agree.depth
  depthLimit := agree.depthLimit
  sink := agree.sink
  frames := rfl
  returned := rfl

theorem Agree.endCall (bodies : Agree after final) : Agree (endCall m after) (endCall n final) where
  definitions := bodies.definitions
  globals := bodies.globals
  depth := by
    change after.calls.tail.length = final.calls.tail.length
    rw [List.length_tail, List.length_tail, bodies.depth]
  depthLimit := bodies.depthLimit
  sink := bodies.sink

theorem AgreeInCall.lookup (inside : AgreeInCall m n) (name : String) : m.lookup name = n.lookup name := by
  have frames : m.frames.findSome? (·.get? name) = n.frames.findSome? (·.get? name) := by
    have found := congrArg (List.findSome? (· name)) inside.frames
    rwa [List.findSome?_map, List.findSome?_map] at found
  rw [Machine.lookup, Machine.lookup, frames, inside.globals]

theorem AgreeInCall.assign (inside : AgreeInCall m n) (name : String) (value : Value) :
    AgreeInCall (m.assign name value) (n.assign name value) := by
  obtain ⟨frames, globals⟩ := @setIn_congr name value _ _ _ _ inside.frames inside.globals
  rw [assign_eq, assign_eq]
  exact ⟨⟨inside.definitions, globals, inside.depth, inside.depthLimit, inside.sink⟩, frames, inside.returned⟩

/-- The body of a function does the same on machines that agree inside its call. -/
def sameInside : Simulation where
  related := AgreeInCall
  alike := SameFaultAndPlace
  excused _ := False
  returned := AgreeInCall.returned
  lookup := AgreeInCall.lookup
  definition inside := inside.toAgree.definition
  refusal inside f args := Or.inl (inside.toAgree.refusal f args)
  error inside position fault := ⟨rfl, rfl⟩
  native inside f args := by
    rw [← inside.sink]
    exact ⟨rfl, { inside with sink := rfl }⟩
  assign := AgreeInCall.assign
  record inside value := { inside with returned := rfl }
  enterBlock inside := { inside with frames := congrArg (List.cons _) inside.frames }
  leaveBlock inside :=
    have frames := congrArg List.tail inside.frames
    { inside with frames := by rwa [← List.map_tail, ← List.map_tail] at frames }
  beginCall inside := inside.toAgree.beginCall
  endCall callers bodies := { bodies.toAgree.endCall with
    frames := callers.frames, returned := callers.returned }

/-- The same value, or errors of the same fault at the same place. -/
inductive SameAnswer : Except RuntimeError Value → Except RuntimeError Value → Prop where
  | value {v} : SameAnswer (.ok v) (.ok v)
  | error {e f} (same : SameFaultAndPlace e f) : SameAnswer (.error e) (.error f)

theorem Agree.callFunction (agree : Agree m n) {fuel : Nat} {position : Position} {f : FunctionRef} {args : List Value}
    {outcome : Except RuntimeError Value} (ran : callFunction position f args (eval fuel) m = some (outcome, after)) :
    ∃ reply final, Eval.callFunction position f args (eval fuel) n = some (reply, final) ∧
      SameAnswer outcome reply ∧ Agree after final := by
  rw [callFunction_eq] at ran ⊢
  rw [← agree.refusal, ← agree.definition]
  split at ran
  · cases ran
    exact ⟨_, _, rfl, .error ⟨rfl, rfl⟩, agree⟩
  · rw [inCall_eq] at ran ⊢
    obtain ⟨⟨result, mid⟩, reached, done⟩ := Option.map_eq_some_iff.mp ran
    cases done
    have answer := @Simulation.follows_eval sameInside fuel _ _ _ (agree.beginCall _ args) _ reached
    generalize eval fuel _ (EvalChange.beginCall n _ args) = reply at answer
    cases answer with
    | value bodies =>
      refine ⟨_, _, rfl, ?_, bodies.toAgree.endCall⟩
      rw [Except.map, Except.map, bodies.returned]
      exact .value
    | error same bodies => exact ⟨_, _, rfl, .error same, bodies.toAgree.endCall⟩
    | excused excused => cases excused

/-- A call leaves its caller as it was, apart from the global frame and what was written, and it does the same
for all callers that agree on what calls share. -/
theorem callee_isolated (fuel : Nat) (position : Position) (f : FunctionRef) (args : List Value) :
    (∀ m outcome after, callFunction position f args (eval fuel) m = some (outcome, after) →
      after = { m with globals := after.globals, sink := after.sink }) ∧
    (∀ m n, Agree m n → ∀ outcome after, callFunction position f args (eval fuel) m = some (outcome, after) →
      ∃ reply final, callFunction position f args (eval fuel) n = some (reply, final) ∧ SameAnswer outcome reply ∧
        final.sink = after.sink ∧ final.globals.get? = after.globals.get?) := by
  refine ⟨fun m outcome after ran => callFunction_changes ran, fun m n agree outcome after ran => ?_⟩
  obtain ⟨reply, final, again, same, agree⟩ := agree.callFunction ran
  exact ⟨reply, final, again, same, agree.sink.symm, agree.globals.symm⟩

/-- `func f(a) { f = a print(a) x }`. -/
def sampleProbe : Definition :=
  ⟨"f", ["a"], .block {} [.set {} "f" (.get {} "a"), .call {} (.get {} "print") [.get {} "a"], .get {} "x"]⟩

/-- A machine in a call of the given function, with its variables. -/
def sampleCaller (name : String) (locals : Frame) : Machine :=
  { Machine.new 3 {} "" with
    definitions := #[sampleProbe], globals := ⟨[("f", .function ⟨"f", 0⟩)]⟩, frames := [locals], calls := [name] }

/-- The probe replaces the global `f`, prints, and then does not find `x`, whether or not its caller has one. -/
theorem sampleProbe_sees_no_caller :
    ∃ e after reply final,
      callFunction {} ⟨"f", 0⟩ [.bool true] (eval 6) (sampleCaller "here" ⟨[("x", .empty)]⟩) = some (.error e, after) ∧
      e.fault = .unknownVariable "x" ∧ after.frames = [⟨[("x", .empty)]⟩] ∧ after.calls = ["here"] ∧
      callFunction {} ⟨"f", 0⟩ [.bool true] (eval 6) (sampleCaller "there" {}) = some (reply, final) ∧
      SameAnswer (.error e) reply ∧ final.sink = after.sink ∧ final.globals.get? = after.globals.get? := by
  obtain ⟨kept, alike⟩ := callee_isolated 6 {} ⟨"f", 0⟩ [.bool true]
  have ran : (callFunction {} ⟨"f", 0⟩ [.bool true] (eval 6) (sampleCaller "here" ⟨[("x", .empty)]⟩)).map Prod.fst =
      some (.error ⟨.unknownVariable "x", {}, "", "", ["f", "here"]⟩) := by
    decide +kernel
  obtain ⟨⟨_, after⟩, ended, rfl⟩ := Option.map_eq_some_iff.mp ran
  have agree : Agree (sampleCaller "here" ⟨[("x", .empty)]⟩) (sampleCaller "there" {}) := ⟨rfl, rfl, rfl, rfl, rfl⟩
  obtain ⟨reply, final, again, same⟩ := alike _ _ agree _ after ended
  have unchanged := kept _ _ after ended
  exact ⟨_, after, reply, final, ended, rfl, congrArg Machine.frames unchanged, congrArg Machine.calls unchanged,
    again, same⟩

end Scriptlet.Proofs.CallIsolation
