import Scriptlet.Machine.Run
import Scriptlet.Proofs.EvalInduction

/-! What evaluation can do to a machine. Every change comes from one of five operations: a variable is set, a
return is recorded, something is written, a block is left or a call is left. A relation between an earlier and a
later machine that these respect therefore holds between the machines before and after any evaluation, however
it ends. -/

namespace Scriptlet.Proofs.EvalChange
open Eval EvalFuel StructuredReturn EvalInduction

/-- The machine at the start of a function's body. -/
def beginCall (m : Machine) (d : Definition) (args : List Value) : Machine := settle (enterCall m d args)

/-- The machine after a call, with everything that belongs to the caller back in place. -/
def endCall (caller after : Machine) : Machine := { leaveCall caller after with returned := caller.returned }

theorem inCall_eq (d : Definition) (args : List Value) (body : Eval Value) (m : Machine) :
    inCall d args body m = (body (beginCall m d args)).map fun (outcome, after) =>
      (outcome.map fun _ => after.returned.getD .empty, endCall m after) := by
  change (body (beginCall m d args)).bind _ = _
  cases body (beginCall m d args) <;> rfl

theorem eval_get (fuel : Nat) (position : Position) (name : String) (m : Machine) :
    eval (fuel + 1) (.get position name) m = some (match m.lookup name with
      | some value => .ok value
      | none => .error (m.error position (.unknownVariable name)), m) := by
  rw [eval]
  simp only [bind_apply, get_apply]
  cases m.lookup name <;> rfl

/-- A call of a built-in function writes at most. -/
theorem call_known {name : String} {f : Native} (known : Native.ofName? name = some f) (position : Position)
    (args : List Value) (run : Node → Eval Value) (m : Machine) :
    call position (.native name) args run m =
      some ((f.apply args m.sink).1.mapError fun fault => m.error position (.native fault),
        { m with sink := (f.apply args m.sink).2 }) := by
  cases applied : f.apply args m.sink with
  | mk result sink =>
    cases result with
    | ok value => exact call_native known applied
    | error fault => exact call_fault known applied

theorem callNative_eq (position : Position) (name : String) (args : List Value) (m : Machine) :
    callNative position name args m = match Native.ofName? name with
      | none => some (.error (m.error position (.unknownNative name)), m)
      | some f => some ((f.apply args m.sink).1.mapError fun fault => m.error position (.native fault),
          { m with sink := (f.apply args m.sink).2 }) := by
  -- A call of a built-in function runs no body, so any way to run one will do.
  change call position (.native name) args (fun _ => outOfFuel) m = _
  cases known : Native.ofName? name with
  | none => exact call_unknown known
  | some f => exact call_known known position args _ m

/-- Why a function cannot be called here, if it cannot. -/
def refusal? (m : Machine) (f : FunctionRef) (args : List Value) : Option RuntimeFault :=
  if args.length ≠ (m.definition f).params.length then
    some (.arity (m.definition f).name (m.definition f).params.length args.length)
  else if m.depthLimit ≤ m.calls.length then some (.overflow m.depthLimit (m.definition f).name)
  else if (m.definition f).body.isAbsent then some (.noBody (m.definition f).name)
  else none

/-- What a call needs that is not refused. -/
structure Accepted (m : Machine) (f : FunctionRef) (args : List Value) : Prop where
  fits : args.length = (m.definition f).params.length
  shallow : m.calls.length < m.depthLimit
  given : (m.definition f).body.isAbsent = false

theorem accepted_of_refusal {m : Machine} {f : FunctionRef} {args : List Value} (none : refusal? m f args = none) :
    Accepted m f args := by
  unfold refusal? at none
  split at none
  · cases none
  next fits =>
    split at none
    · cases none
    next shallow =>
      split at none
      · cases none
      next given =>
        exact ⟨Decidable.not_not.mp fits, Nat.lt_of_not_le shallow, Bool.eq_false_iff.mpr given⟩

theorem callFunction_eq (position : Position) (f : FunctionRef) (args : List Value) (run : Node → Eval Value)
    (m : Machine) :
    callFunction position f args run m = match refusal? m f args with
      | some fault => some (.error (m.error position fault), m)
      | none => inCall (m.definition f) args (run (m.definition f).body) m := by
  simp only [callFunction, refusal?, bind_apply, get_apply]
  split
  · rfl
  · split
    · rfl
    · split <;> rfl

structure Respected (changes : Machine → Machine → Prop) : Prop where
  refl : ∀ m, changes m m
  trans : ∀ {m mid after}, changes m mid → changes mid after → changes m after
  assign : ∀ m name value, changes m (m.assign name value)
  record : ∀ m value, changes m { m with returned := some value }
  write : ∀ m (f : Native) args, changes m { m with sink := (f.apply args m.sink).2 }
  block : ∀ {m after}, changes (enterBlock m) after → changes m (leaveBlock after)
  call : ∀ {m d args after}, changes (beginCall m d args) after → changes m (endCall m after)

section Within
variable {α β : Type} {changes : Machine → Machine → Prop}

/-- The computation changes the machine only as described. -/
def Within (changes : Machine → Machine → Prop) (c : Eval α) : Prop :=
  ∀ m outcome after, c m = some (outcome, after) → changes m after

private theorem within_of_steady (respected : Respected changes) {c : Eval α}
    (steady : ∀ m, ∃ outcome, c m = some (outcome, m)) : Within changes c := by
  intro m outcome after ran
  obtain ⟨_, same⟩ := steady m
  cases same.symm.trans ran
  exact respected.refl m

theorem Within.bind (respected : Respected changes) {first : Eval α} {next : α → Eval β}
    (part : Within changes first) (rest : ∀ m v mid, first m = some (.ok v, mid) → Within changes (next v)) :
    Within changes (first >>= next) := by
  intro m outcome after ran
  rw [bind_apply] at ran
  cases reached : first m with
  | none => simp [reached] at ran
  | some result =>
    obtain ⟨result, mid⟩ := result
    rw [reached] at ran
    cases result with
    | error e =>
      cases ran
      exact part m _ _ reached
    | ok value => exact respected.trans (part m _ _ reached) (rest m value mid reached mid _ _ ran)

theorem Within.inFrame (respected : Respected changes) {body : Eval Value} (inside : Within changes body) :
    Within changes (inFrame body) := by
  intro m outcome after ran
  rw [inFrame_apply] at ran
  obtain ⟨⟨result, mid⟩, reached, done⟩ := Option.map_eq_some_iff.mp ran
  cases done
  exact respected.block (inside _ _ _ reached)

theorem Within.inCall (respected : Respected changes) {body : Eval Value} (inside : Within changes body)
    (d : Definition) (args : List Value) : Within changes (inCall d args body) := by
  intro m outcome after ran
  rw [inCall_eq] at ran
  obtain ⟨⟨result, mid⟩, reached, done⟩ := Option.map_eq_some_iff.mp ran
  cases done
  exact respected.call (inside _ _ _ reached)

theorem Within.callFunction (respected : Respected changes) {run : Node → Eval Value}
    (inside : ∀ node, Within changes (run node)) (position : Position) (f : FunctionRef) (args : List Value) :
    Within changes (callFunction position f args run) := by
  intro m outcome after ran
  rw [callFunction_eq] at ran
  split at ran
  · cases ran
    exact respected.refl m
  · exact (inside _).inCall respected _ args m _ _ ran

theorem within_native (respected : Respected changes) (position : Position) (name : String) (args : List Value) :
    Within changes (callNative position name args) := by
  intro m outcome after ran
  rw [callNative_eq] at ran
  split at ran
  · cases ran
    exact respected.refl m
  next f _ =>
    cases ran
    exact respected.write m f args

end Within

section Evaluation
variable {changes : Machine → Machine → Prop} (respected : Respected changes)
include respected

private theorem within_steps : Steps (Within changes) where
  outOfFuel := by
    intro α m outcome after ran
    cases ran
  pure v := within_of_steady respected fun m => ⟨_, pure_apply v m⟩
  fail p fault := within_of_steady respected fun m => ⟨_, fail_apply p fault m⟩
  isReturning := within_of_steady respected fun m => ⟨_, isReturning_apply m⟩
  bind := Within.bind respected
  get p name := within_of_steady respected fun m => ⟨_, eval_get 0 p name m⟩
  assign name v := by
    intro m outcome after ran
    cases ran
    exact respected.assign m name v
  record v := by
    intro m outcome after ran
    cases ran
    exact respected.record m v
  inFrame := Within.inFrame respected
  native := within_native respected
  function p f args _ inside := .callFunction respected inside p f args

theorem eval_within (fuel : Nat) (node : Node) : Within changes (eval fuel node) :=
  (within_steps respected).node fuel node

theorem evalStatements_within (fuel : Nat) (last : Value) (statements : List Node) :
    Within changes (evalStatements fuel last statements) :=
  (within_steps respected).statements fuel last statements

theorem evalArguments_within (fuel : Nat) (arguments : List Node) : Within changes (evalArguments fuel arguments) :=
  (within_steps respected).arguments fuel arguments

end Evaluation

/-- Declarations fill the table of functions and the global frame. -/
theorem defineAll_eq (m : Machine) (functions : List Definition) : m.defineAll functions = { m with
    definitions := (m.defineAll functions).definitions, globals := (m.defineAll functions).globals } := by
  induction functions generalizing m with
  | nil => rfl
  | cons d functions ih => exact ih (m.define d)

/-- The machine on which the main part of a program starts. -/
def launch (m : Machine) (functions : List Definition) : Machine :=
  ({ m with globals := {}, frames := [], returned := none, calls := [] } : Machine).defineAll functions

theorem execute_eq (m : Machine) (fuel : Nat) (functions : List Definition) (main : Node) :
    m.execute fuel functions main = (eval fuel main (launch m functions)).map fun (outcome, after) =>
      (outcome.map fun _ => after.outcome .empty, after) := by
  change (eval fuel main (launch m functions)).bind _ = _
  cases eval fuel main (launch m functions) <;> rfl

/-- More fuel changes no finished program. -/
theorem execute_grows {m after : Machine} {fuel more : Nat} {functions : List Definition} {main : Node}
    {outcome : Except RuntimeError Value} (le : fuel ≤ more)
    (ended : m.execute fuel functions main = some (outcome, after)) :
    m.execute more functions main = some (outcome, after) := by
  rw [execute_eq] at ended ⊢
  obtain ⟨result, ran, done⟩ := Option.map_eq_some_iff.mp ended
  have again : eval more main (launch m functions) = some result := eval_grows main le _ _ ran
  rw [again, Option.map_some, done]

end Scriptlet.Proofs.EvalChange
