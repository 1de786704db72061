import Mathlib.Control.Monad.Basic
import Scriptlet.Proofs.CallIsolation
import Scriptlet.Proofs.ErrorOrigin
import Scriptlet.Proofs.EvalInduction
import Scriptlet.Proofs.ScopeDiscipline

/-! The call stack. It names the functions whose bodies are being evaluated, at every moment of a run, and holds no
more names than the depth limit allows. An error takes the stack of the moment at which it is raised with it, and an
overflow is raised where the stack is full. -/

namespace Scriptlet.Proofs.CallStack
open Eval EvalFuel StructuredReturn EvalChange EvalInduction EvalMoments ErrorOrigin ScopeView ScopeDiscipline
open CallIsolation (SameCall sameCall_respected)

/-- A call that is not refused starts the body of a function. -/
inductive Enters : Moment → Definition → Moment → Prop where
  | body {m p function arguments fuel f mid more args ready}
      (first : eval fuel function m = some (.ok (.function f), mid)) (idle : Idle mid)
      (given : evalArguments more arguments mid = some (.ok (some args), ready))
      (accepted : refusal? ready f args = none) :
      Enters ⟨m, .call p function arguments⟩ (ready.definition f)
        ⟨beginCall ready (ready.definition f) args, (ready.definition f).body⟩

section Moments
variable {now next : Moment} {d : Definition} {m : Machine} {nodes : List Node}

theorem among_mem (among : Among m nodes next) : next.node ∈ nodes := by
  induction among with
  | first => exact List.mem_cons_self
  | later _ _ _ ih => exact List.mem_cons_of_mem _ ih

theorem Enters.starts (enters : Enters now d next) : Starts now next := by
  cases enters with
  | body first idle given accepted => exact .body first idle given accepted

theorem Enters.deeper (enters : Enters now d next) :
    next.machine.calls = d.name :: now.machine.calls ∧ next.machine.depthLimit = now.machine.depthLimit ∧
      now.machine.calls.length < now.machine.depthLimit := by
  cases enters with
  | body first idle given accepted =>
    have changed := sameCall_respected.trans (eval_within sameCall_respected _ _ _ _ _ first)
      (evalArguments_within sameCall_respected _ _ _ _ _ given)
    have shallow := (accepted_of_refusal accepted).shallow
    rw [changed.calls, changed.limit] at shallow
    exact ⟨congrArg _ changed.calls, changed.limit, shallow⟩

/-- What is started is the body of a function, or else a part of the node or a loop once more, in the same call. -/
theorem starts_cases (starts : Starts now next) :
    (∃ d, Enters now d next) ∨ SameCall now.machine next.machine ∧
      (next.node ∈ parts now.node ∨ (∃ p test action, now.node = .loop p test action) ∧ next.node = now.node) := by
  have ends {fuel node m outcome after} (ran : eval fuel node m = some (outcome, after)) : SameCall m after :=
    eval_within sameCall_respected fuel node m outcome after ran
  have same : SameCall now.machine now.machine := ⟨rfl, rfl⟩
  cases starts with
  | body first idle given accepted => exact Or.inl ⟨_, .body first idle given accepted⟩
  | statement reached =>
    have inside := reached.changed sameCall_respected
    exact Or.inr ⟨⟨inside.calls, inside.limit⟩, Or.inl (among_mem reached)⟩
  | branchThen holds _ => exact Or.inr ⟨ends holds, Or.inl (List.mem_cons_of_mem _ List.mem_cons_self)⟩
  | branchElse fails _ given => exact Or.inr ⟨ends fails, Or.inl (otherwise_mem_parts given)⟩
  | loopTurn holds _ => exact Or.inr ⟨ends holds, Or.inl (List.mem_cons_of_mem _ List.mem_cons_self)⟩
  | loopAgain holds _ turn _ =>
    exact Or.inr ⟨sameCall_respected.trans (ends holds) (ends turn), Or.inr ⟨⟨_, _, _, rfl⟩, rfl⟩⟩
  | argument first _ reached =>
    exact Or.inr ⟨sameCall_respected.trans (ends first) (reached.changed sameCall_respected),
      Or.inl (List.mem_cons_of_mem _ (among_mem reached))⟩
  | _ => exact Or.inr ⟨same, Or.inl List.mem_cons_self⟩

end Moments

/-- The way from the start of a run to a moment, and the functions whose bodies it has entered, the innermost
first. -/
inductive Active (first : Moment) : List Definition → Moment → Prop where
  | start : Active first [] first
  | part {active now next} (earlier : Active first active now) (starts : Starts now next)
      (inner : ∀ d, ¬Enters now d next) : Active first active next
  | body {active now d next} (earlier : Active first active now) (enters : Enters now d next) :
      Active first (d :: active) next

variable {first now : Moment} {active : List Definition}

theorem active_of_reaches (reached : Reaches first now) : ∃ active, Active first active now := by
  induction reached with
  | refl => exact ⟨[], .start⟩
  | @tail now next _ starts ih =>
    obtain ⟨active, earlier⟩ := ih
    by_cases entered : ∃ d, Enters now d next
    · obtain ⟨d, enters⟩ := entered
      exact ⟨d :: active, .body earlier enters⟩
    · exact ⟨active, .part earlier starts fun d enters => entered ⟨d, enters⟩⟩

theorem Active.calls (path : Active first active now) :
    now.machine.calls = active.map Definition.name ++ first.machine.calls ∧
      now.machine.depthLimit = first.machine.depthLimit := by
  induction path with
  | start => exact ⟨rfl, rfl⟩
  | @part active now next _ starts inner ih =>
    rcases starts_cases starts with ⟨d, enters⟩ | ⟨same, _⟩
    · exact absurd enters (inner d)
    · exact ⟨same.calls.trans ih.1, same.limit.trans ih.2⟩
  | body _ enters ih =>
    obtain ⟨calls, limit, _⟩ := enters.deeper
    exact ⟨calls.trans (congrArg _ ih.1), limit.trans ih.2⟩

theorem Active.shallow (path : Active first active now)
    (start : first.machine.calls.length ≤ first.machine.depthLimit) :
    now.machine.calls.length ≤ now.machine.depthLimit := by
  induction path with
  | start => exact start
  | part _ starts inner ih =>
    rcases starts_cases starts with ⟨d, enters⟩ | ⟨same, _⟩
    · exact absurd enters (inner d)
    · rwa [same.calls, same.limit]
  | body _ enters ih =>
    obtain ⟨calls, limit, shallow⟩ := enters.deeper
    rw [calls, limit]
    exact shallow

theorem raises_sameCall {here : Machine} {position : Position} {fault : RuntimeFault}
    (raises : Raises now here position fault) : SameCall now.machine here := by
  obtain ⟨fuel, failed⟩ := raises.fails
  exact eval_within sameCall_respected fuel _ _ _ _ failed

private theorem overflow_refused {m : Machine} {callee : Value} {args : List Value} {fault : RuntimeFault}
    (refuses : Refuses m callee args fault) (overflow : fault.kind = "stack overflow") :
    m.depthLimit ≤ m.calls.length := by
  cases refuses with
  | unknown _ => simp [RuntimeFault.kind] at overflow
  | @native _ _ _ fault _ _ => cases fault <;> simp [RuntimeFault.kind] at overflow
  | other _ _ => simp [RuntimeFault.kind] at overflow
  | function refused =>
    unfold refusal? at refused
    split at refused
    · cases refused
      simp [RuntimeFault.kind] at overflow
    · split at refused
      next deep =>
        exact deep
      · split at refused
        · cases refused
          simp [RuntimeFault.kind] at overflow
        · cases refused

private theorem raises_overflow {here : Machine} {position : Position} {fault : RuntimeFault}
    (raises : Raises now here position fault) (overflow : fault.kind = "stack overflow") :
    here.depthLimit ≤ here.calls.length := by
  cases raises with
  | call _ _ _ refuses => exact overflow_refused refuses overflow
  | _ => simp [RuntimeFault.kind] at overflow

/-- Throughout the run that begins at this moment, the stack names the functions whose bodies are being evaluated,
and is within the limit. -/
def Tracked (limit : Nat) (first : Moment) : Prop :=
  ∀ now, Reaches first now → (∃ active, Active first active now) ∧
    ∀ active, Active first active now →
      now.machine.calls = active.map Definition.name ∧ now.machine.calls.length ≤ limit

/-- The error was raised at a moment of the run, and its stack names the functions whose bodies were being evaluated
there. It is within the limit, and an overflow has reached it. -/
def Traced (limit : Nat) (first : Moment) (e : RuntimeError) : Prop :=
  ∃ active now here position fault, Active first active now ∧ Raises now here position fault ∧
    e = here.error position fault ∧ e.stack = active.map Definition.name ∧ e.stack.length ≤ limit ∧
    (e.fault.kind = "stack overflow" → e.stack.length = limit)

private theorem tracked_of_outside (outside : first.machine.calls = []) : Tracked first.machine.depthLimit first := by
  intro now reached
  refine ⟨active_of_reaches reached, fun active path => ?_⟩
  obtain ⟨calls, limit⟩ := path.calls
  rw [outside, List.append_nil] at calls
  exact ⟨calls, limit ▸ path.shallow (by simp [outside])⟩

theorem traced_of_failed {fuel : Nat} {e : RuntimeError} {after : Machine} (outside : first.machine.calls = [])
    (failed : eval fuel first.node first.machine = some (.error e, after)) :
    Traced first.machine.depthLimit first e := by
  obtain ⟨now, here, position, fault, reached, raises, rfl, _⟩ := error_origin failed
  obtain ⟨⟨active, path⟩, tracked⟩ := tracked_of_outside outside now reached
  obtain ⟨calls, within⟩ := tracked active path
  have same := raises_sameCall raises
  have stack : (here.error position fault).stack = now.machine.calls := same.calls
  have limit : here.depthLimit = first.machine.depthLimit := same.limit.trans path.calls.2
  refine ⟨active, now, here, position, fault, path, raises, rfl, stack.trans calls, stack ▸ within, fun overflow => ?_⟩
  have full : here.depthLimit ≤ here.calls.length := raises_overflow raises overflow
  rw [limit, same.calls] at full
  rw [stack]
  exact Nat.le_antisymm within full

private theorem launch_outside (m : Machine) (functions : List Definition) :
    (launch m functions).calls = [] ∧ (launch m functions).depthLimit = m.depthLimit := by
  rw [launch, defineAll_eq]
  exact ⟨rfl, rfl⟩

theorem statement_outside {m : Machine} {file text : String} {program : Program} {first : Moment}
    (among : Among (chunkStart (m.setSource file text) program) program.statements first) :
    first.machine.calls = [] ∧ first.machine.depthLimit = m.depthLimit := by
  have changed := among.changed sameCall_respected
  refine ⟨changed.calls, changed.limit.trans ?_⟩
  rw [chunkStart, defineAll_eq]
  rfl

/-- A chunk that ends with a runtime error could be read, and one of its statements ended with the error. -/
theorem runChunk_failed {m after : Machine} {fuel : Nat} {file text : String} {e : RuntimeError}
    (failed : m.runChunk fuel file text = some (.error (.runtime e), after)) :
    ∃ program reached, Program.ofFragment text = .ok program ∧
      evalStatements fuel .empty program.statements (chunkStart (m.setSource file text) program) =
        some (.error e, reached) := by
  rcases runChunk_cases failed with ⟨_, _, same, _⟩ | ⟨program, result, reached, read, evaluated, same, _⟩
  · cases same
  · cases result with
    | ok value => cases same
    | error _ =>
      cases same
      exact ⟨program, reached, read, evaluated⟩

/-- Evaluation gives the call stack back as it was. At every moment of a program or of a chunk the stack names the
functions whose bodies are being evaluated and is within the limit; and every error shows the stack of the moment at
which it was raised, which is full if the error is an overflow. -/
theorem stack_names_active_functions :
    (∀ fuel node m outcome after, eval fuel node m = some (outcome, after) → after.calls = m.calls) ∧
    (∀ (m : Machine) functions main, Tracked m.depthLimit ⟨launch m functions, main⟩ ∧
      ∀ fuel e after, m.execute fuel functions main = some (.error e, after) →
        Traced m.depthLimit ⟨launch m functions, main⟩ e) ∧
    (∀ (m : Machine) file text program first, Program.ofFragment text = .ok program →
      Among (chunkStart (m.setSource file text) program) program.statements first → Tracked m.depthLimit first) ∧
    (∀ (m : Machine) fuel file text e after, m.runChunk fuel file text = some (.error (.runtime e), after) →
      ∃ program first, Program.ofFragment text = .ok program ∧
        Among (chunkStart (m.setSource file text) program) program.statements first ∧ Traced m.depthLimit first e) := by
  refine ⟨?_, ?_, ?_, ?_⟩
  · intro fuel node m outcome after ran
    exact (eval_within sameCall_respected fuel node m outcome after ran).calls
  · intro m functions main
    obtain ⟨outside, limit⟩ := launch_outside m functions
    refine ⟨limit ▸ tracked_of_outside outside, fun fuel e after failed => ?_⟩
    rw [execute_eq] at failed
    obtain ⟨⟨outcome, reached⟩, ran, done⟩ := Option.map_eq_some_iff.mp failed
    cases outcome with
    | ok value => cases done
    | error _ =>
      cases done
      exact limit ▸ traced_of_failed outside ran
  · intro m file text program first _ among
    obtain ⟨outside, limit⟩ := statement_outside among
    exact limit ▸ tracked_of_outside outside
  · intro m fuel file text e after failed
    obtain ⟨program, reached, read, evaluated⟩ := runChunk_failed failed
    obtain ⟨first, among, less, _, failed⟩ := evalStatements_failed evaluated
    obtain ⟨outside, limit⟩ := statement_outside among
    exact ⟨program, first, read, among, limit ▸ traced_of_failed outside failed⟩

/-- `func f(g) { return g(g) }`. -/
def sampleEndless : Definition := ⟨"f", ["g"], .block {} [.ret {} (.call {} (.get {} "g") [.get {} "g"])]⟩

/-- `{ f(f) }`. -/
def sampleStart : Node := .block {} [.call {} (.get {} "f") [.get {} "f"]]

def sampleChunk : String := "func f(g) \x7b return g(h(g)) \x7d func h(x) \x7b return x.y \x7d f(f)"

/-- The fault and the stack of a runtime error. -/
def runtimeError? : Except Failure Value → Option (RuntimeFault × List String)
  | .error (.runtime e) => some (e.fault, e.stack)
  | _ => none

theorem runtimeError_eq {outcome : Except Failure Value} {fault : RuntimeFault} {stack : List String}
    (shown : runtimeError? outcome = some (fault, stack)) :
    ∃ e, outcome = .error (.runtime e) ∧ e.fault = fault ∧ e.stack = stack := by
  rcases outcome with (_ | e) | _
  · cases shown
  · cases shown
    exact ⟨e, rfl, rfl, rfl⟩
  · cases shown

/-- A function that is handed itself as an argument fills a stack of three. In a chunk, an error in the argument of a
call shows that the call has not begun. -/
theorem sampleEndless_fills_stack :
    (∃ e after, (Machine.new 3 {} "").execute 20 [sampleEndless] sampleStart = some (.error e, after) ∧
      e.fault = .overflow 3 "f" ∧ e.stack = ["f", "f", "f"] ∧ after.calls = [] ∧
      Traced 3 ⟨launch (Machine.new 3 {} "") [sampleEndless], sampleStart⟩ e) ∧
    ∃ e after program first, (Machine.new 3 {} "").runChunk 20 "" sampleChunk = some (.error (.runtime e), after) ∧
      e.fault = .memberAccess "y" ∧ e.stack = ["h", "f"] ∧ Program.ofFragment sampleChunk = .ok program ∧
      Among (chunkStart ((Machine.new 3 {} "").setSource "" sampleChunk) program) program.statements first ∧
      Tracked 3 first ∧ Traced 3 first e := by
  obtain ⟨restored, programs, statements, chunks⟩ := stack_names_active_functions
  constructor
  · have ran : ((Machine.new 3 {} "").execute 20 [sampleEndless] sampleStart).map Prod.fst =
        some (.error ⟨.overflow 3 "f", {}, "", "", ["f", "f", "f"]⟩) := by
      decide +kernel
    obtain ⟨⟨_, after⟩, ended, rfl⟩ := Option.map_eq_some_iff.mp ran
    obtain ⟨⟨_, _⟩, evaluated, done⟩ := Option.map_eq_some_iff.mp ((execute_eq ..).symm.trans ended)
    obtain ⟨_, rfl⟩ := Prod.mk.inj done
    have outside := (restored _ _ _ _ _ evaluated).trans (launch_outside (Machine.new 3 {} "") [sampleEndless]).1
    exact ⟨_, _, ended, rfl, rfl, outside, (programs _ _ _).2 _ _ _ ended⟩
  · have ran : ((Machine.new 3 {} "").runChunk 20 "" sampleChunk).bind (runtimeError? ·.1) =
        some (.memberAccess "y", ["h", "f"]) := by
      decide +kernel
    obtain ⟨⟨outcome, after⟩, ended, shown⟩ := Option.bind_eq_some_iff.mp ran
    obtain ⟨e, rfl, fault, stack⟩ := runtimeError_eq shown
    obtain ⟨program, first, read, among, blamed⟩ := chunks (Machine.new 3 {} "") 20 "" sampleChunk e after ended
    exact ⟨e, after, program, first, ended, fault, stack, read, among,
      statements (Machine.new 3 {} "") "" sampleChunk program first read among, blamed⟩

end Scriptlet.Proofs.CallStack
