import Scriptlet.Proofs.EvalFuel
import Scriptlet.Proofs.StructuredReturn

/-! Evaluation seen from its outcomes. A return under way is recorded in the machine, and every construct
is a chain of one kind of step: a part, a look at that record, and the rest. -/

namespace Scriptlet.Proofs.StructuredReturn
open Eval EvalFuel

section Shown
variable {α β γ : Type}

/-- No return is under way. -/
def Idle (m : Machine) : Prop := m.returned = none

/-- How evaluation breaks off. Of the value that comes with a return only `ignored` is known. -/
inductive Breaks (ignored : β → Prop) : Abrupt → Machine → Except RuntimeError β × Machine → Prop where
  | ret {value after result} (idle : Idle after) (any : ignored result) :
      Breaks ignored (.ret value) after (.ok result, { after with returned := some value })
  | error {e after} (idle : Idle after) : Breaks ignored (.error e) after (.error e, after)

inductive Shows (shown : α → β) (ignored : β → Prop) :
    Outcome α → Machine → Except RuntimeError β × Machine → Prop where
  | normal {value after} (idle : Idle after) : Shows shown ignored (.normal value) after (.ok (shown value), after)
  | abrupt {reason after result} (breaks : Breaks ignored reason after result) :
      Shows shown ignored (.abrupt reason) after result

abbrev ShowsValue : Outcome Value → Machine → Except RuntimeError Value × Machine → Prop :=
  Shows id fun _ => True

/-- Argument lists are nothing when a return is under way. -/
abbrev ShowsList : Outcome (List Value) → Machine → Except RuntimeError (Option (List Value)) × Machine → Prop :=
  Shows some (· = none)

/-- The step of every construct: a part, and if no return is under way then the rest. -/
def checked (first : Eval β) (stop : β → γ) (next : β → Eval γ) : Eval γ := do
  let value ← first
  if ← isReturning then return stop value else next value

theorem checked_normal {first : Eval β} {stop : β → γ} {next : β → Eval γ} {m after : Machine} {value : β}
    (ran : first m = some (.ok value, after)) (idle : Idle after) :
    checked first stop next m = next value after := by
  simp only [checked, bind_apply, ran, isReturning_apply, show after.returned = none from idle]
  rfl

theorem checked_breaks {first : Eval β} {stop : β → γ} {next : β → Eval γ} {m after : Machine}
    {reason : Abrupt} {result : Except RuntimeError β × Machine} {ignored : β → Prop} {left : γ → Prop}
    (ran : first m = some result) (breaks : Breaks ignored reason after result) (any : ∀ value, left (stop value)) :
    ∃ final, checked first stop next m = some final ∧ Breaks left reason after final := by
  simp only [checked, bind_apply, ran]
  cases breaks with
  | ret idle _ => exact ⟨_, rfl, .ret idle (any _)⟩
  | error idle => exact ⟨_, rfl, .error idle⟩

/-- A step ends either in its rest or as its part broke off. -/
theorem checked_cases {first : Eval Value} {stop : Value → γ} {next : Value → Eval γ} {m : Machine}
    {final : Except RuntimeError γ × Machine} {part : Outcome Value → Machine → Prop}
    (sound : ∀ result, first m = some result → ∃ outcome after, part outcome after ∧ ShowsValue outcome after result)
    (ended : checked first stop next m = some final) :
    (∃ value after, part (.normal value) after ∧ Idle after ∧ next value after = some final) ∨
    (∃ reason after, part (.abrupt reason) after ∧
      ∀ left : γ → Prop, (∀ value, left (stop value)) → Breaks left reason after final) := by
  cases ran : first m with
  | none =>
    rw [checked, bind_apply, ran] at ended
    cases ended
  | some result =>
    obtain ⟨outcome, after, found, shows⟩ := sound result ran
    cases shows with
    | normal idle =>
      rw [checked_normal ran idle] at ended
      exact Or.inl ⟨_, _, found, idle, ended⟩
    | abrupt breaks =>
      refine Or.inr ⟨_, _, found, fun left any => ?_⟩
      have same : ∃ final, checked first stop next m = some final ∧ Breaks left _ after final :=
        checked_breaks ran breaks any
      obtain ⟨_, again, breaks⟩ := same
      cases again.symm.trans ended
      exact breaks

end Shown

section Steps
variable (fuel : Nat)

theorem eval_set (position : Position) (name : String) (value : Node) :
    eval (fuel + 1) (.set position name value) =
      checked (eval fuel value) (fun _ => .empty) fun v m => some (.ok .empty, m.assign name v) := by
  refine bind_congr fun v => funext fun m => ?_
  simp only [bind_apply, isReturning_apply]
  cases m.returned <;> rfl

theorem eval_ret (position : Position) (value : Node) :
    eval (fuel + 1) (.ret position value) =
      checked (eval fuel value) id fun v m => some (.ok v, { m with returned := some v }) := by
  refine bind_congr fun v => funext fun m => ?_
  simp only [bind_apply, isReturning_apply]
  cases m.returned <;> rfl

def onCondition (construct : Conditional) (position : Position) (yes no : Eval Value) : Value → Eval Value
  | .bool true => yes
  | .bool false => no
  | v => fail position (.badCondition construct v)

/-- A condition is checked like any other part. -/
theorem condition_bind (construct : Conditional) (position : Position) (test : Eval Value)
    (next : Option Bool → Eval Value) (stops : next none = pure .empty) :
    condition construct position test >>= next =
      checked test (fun _ => .empty) (onCondition construct position (next (some true)) (next (some false))) := by
  rw [condition, bind_assoc]
  refine bind_congr fun v => funext fun m => ?_
  simp only [bind_apply, isReturning_apply]
  cases m.returned with
  | some _ => simp [stops]
  | none => rcases v with _ | (_ | _) | _ | _ | _ | _ <;> rfl

theorem eval_branch (position : Position) (test action otherwise : Node) :
    eval (fuel + 1) (.branch position test action otherwise) =
      checked (eval fuel test) (fun _ => .empty) (onCondition .branch test.position (eval fuel action)
        (if otherwise.isAbsent then return .empty else eval fuel otherwise)) := by
  rw [eval]
  exact condition_bind .branch test.position (eval fuel test) _ rfl

theorem evalLoop_eq (test action : Node) :
    evalLoop (fuel + 1) test action =
      checked (eval fuel test) (fun _ => .empty) (onCondition .loop test.position
        (checked (eval fuel action) (fun _ => .empty) fun _ => evalLoop fuel test action) (return .empty)) := by
  rw [evalLoop]
  exact condition_bind .loop test.position (eval fuel test) _ rfl

/-- The end of a call, once its arguments are known. -/
def applied (run : Node → Eval Value) (position : Position) (callee : Value) : Option (List Value) → Eval Value
  | none => return .empty
  | some args => call position callee args run

theorem eval_call (position : Position) (function : Node) (arguments : List Node) :
    eval (fuel + 1) (.call position function arguments) =
      checked (eval fuel function) (fun _ => .empty) fun callee =>
        evalArguments fuel arguments >>= applied (eval fuel) position callee := by
  rw [eval]
  rfl

theorem evalStatements_cons (last : Value) (node : Node) (rest : List Node) :
    evalStatements (fuel + 1) last (node :: rest) =
      checked (eval fuel node) id fun v => evalStatements fuel v rest := by
  rw [evalStatements]
  rfl

theorem evalArguments_cons (node : Node) (rest : List Node) :
    evalArguments (fuel + 1) (node :: rest) =
      checked (eval fuel node) (fun _ => none) fun v => do return (← evalArguments fuel rest).map (v :: ·) := by
  rw [evalArguments]
  rfl

end Steps

section Scopes
variable {m after : Machine} {outcome : Outcome Value} {body : Eval Value}

theorem inFrame_apply (m : Machine) :
    inFrame body m = (body (enterBlock m)).map fun (result, after) => (result, leaveBlock after) := by
  change (body (enterBlock m)).bind _ = _
  cases body (enterBlock m) <;> rfl

theorem inFrame_shows {result : Except RuntimeError Value × Machine} (ran : body (enterBlock m) = some result)
    (shows : ShowsValue outcome after result) :
    ∃ final, inFrame body m = some final ∧ ShowsValue outcome (leaveBlock after) final := by
  rw [inFrame_apply, ran]
  refine ⟨_, rfl, ?_⟩
  cases shows with
  | normal idle => exact .normal idle
  | abrupt breaks =>
    cases breaks with
    | ret idle any => exact .abrupt (.ret (show Idle (leaveBlock _) from idle) any)
    | error idle => exact .abrupt (.error idle)

/-- The machine with its record of a return cleared. -/
def settle (m : Machine) : Machine := { m with returned := none }

private theorem settle_idle (idle : Idle m) : settle m = m := by
  rw [settle, ← show m.returned = none from idle]

theorem settle_returned (idle : Idle m) (value : Value) : settle { m with returned := some value } = m :=
  settle_idle idle

/-- To an idle caller a call is its body in a scope of its own. -/
theorem inCall_apply (d : Definition) (args : List Value) (idle : Idle m) :
    inCall d args body m = (body (enterCall m d args)).map fun (result, after) =>
      (result.map fun _ => after.returned.getD .empty, leaveCall m (settle after)) := by
  have entered : ({ m with
      frames := [Frame.ofParameters d.params args], returned := none, calls := d.name :: m.calls } : Machine) =
      enterCall m d args := by
    rw [enterCall, show m.returned = none from idle]
  rw [inCall]
  simp only [entered, show m.returned = none from idle]
  cases body (enterCall m d args) <;> rfl

theorem inCall_shows {d : Definition} {args : List Value} {result : Except RuntimeError Value × Machine}
    (idle : Idle m) (ran : body (enterCall m d args) = some result) (shows : ShowsValue outcome after result) :
    ∃ final, inCall d args body m = some final ∧ ShowsValue outcome.ofCall (leaveCall m after) final := by
  rw [inCall_apply d args idle, ran]
  refine ⟨_, rfl, ?_⟩
  cases shows with
  | normal idle =>
    simp only [settle_idle idle, show after.returned = none from idle]
    exact .normal idle
  | abrupt breaks =>
    cases breaks with
    | ret idle any =>
      simp only [settle_returned idle]
      exact .normal idle
    | error idle =>
      simp only [settle_idle idle]
      exact .abrupt (.error idle)

end Scopes

section Calls
variable {m : Machine} {position : Position} {name : String} {f : FunctionRef} {args : List Value}
  {run : Node → Eval Value}

theorem call_native {native : Native} {value : Value} {sink : Sink} (known : Native.ofName? name = some native)
    (applied : native.apply args m.sink = (.ok value, sink)) :
    call position (.native name) args run m = some (.ok value, { m with sink }) := by
  simp only [call, callNative, known, bind_apply, get_apply, applied]
  rfl

theorem call_fault {native : Native} {fault : NativeFault} {sink : Sink}
    (known : Native.ofName? name = some native) (applied : native.apply args m.sink = (.error fault, sink)) :
    call position (.native name) args run m =
      some (.error (m.error position (.native fault)), { m with sink }) := by
  simp only [call, callNative, known, bind_apply, get_apply, applied]
  rfl

theorem call_unknown (unknown : Native.ofName? name = none) :
    call position (.native name) args run m = some (.error (m.error position (.unknownNative name)), m) := by
  simp only [call, callNative, unknown]
  rfl

theorem call_arity (differs : args.length ≠ (m.definition f).params.length) :
    call position (.function f) args run m =
      some (.error (m.error position
        (.arity (m.definition f).name (m.definition f).params.length args.length)), m) := by
  simp only [call, callFunction, bind_apply, get_apply, if_pos differs]
  rfl

theorem call_overflow (fits : args.length = (m.definition f).params.length) (deep : m.depthLimit ≤ m.calls.length) :
    call position (.function f) args run m =
      some (.error (m.error position (.overflow m.depthLimit (m.definition f).name)), m) := by
  simp only [call, callFunction, bind_apply, get_apply, if_neg (not_not_intro fits), if_pos deep]
  rfl

theorem call_noBody (fits : args.length = (m.definition f).params.length) (shallow : m.calls.length < m.depthLimit)
    (missing : (m.definition f).body.isAbsent = true) :
    call position (.function f) args run m =
      some (.error (m.error position (.noBody (m.definition f).name)), m) := by
  simp only [call, callFunction, bind_apply, get_apply, if_neg (not_not_intro fits),
    if_neg (Nat.not_le.mpr shallow), if_pos missing]
  rfl

theorem call_function (fits : args.length = (m.definition f).params.length)
    (shallow : m.calls.length < m.depthLimit) (given : (m.definition f).body.isAbsent = false) :
    call position (.function f) args run m =
      inCall (m.definition f) args (run (m.definition f).body) m := by
  simp only [call, callFunction, bind_apply, get_apply, if_neg (not_not_intro fits),
    if_neg (Nat.not_le.mpr shallow), given, Bool.false_eq_true, ↓reduceIte]

theorem call_other {callee : Value} (native : ∀ name, callee ≠ .native name)
    (function : ∀ f, callee ≠ .function f) :
    call position callee args run m = some (.error (m.error position (.notCallable callee)), m) := by
  cases callee with
  | native name => exact absurd rfl (native name)
  | function f => exact absurd rfl (function f)
  | _ => rfl

end Calls

end Scriptlet.Proofs.StructuredReturn
