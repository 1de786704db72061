import Scriptlet.Machine.Eval

/-! More fuel changes no result. A computation that ends with some fuel ends in the same way, in the
same state, with any greater amount of it. -/

namespace Scriptlet.Proofs.EvalFuel
open Eval

variable {α β : Type}

theorem bind_apply (first : Eval α) (next : α → Eval β) (m : Machine) :
    (first >>= next) m = match first m with
      | none => none
      | some (.error e, after) => some (.error e, after)
      | some (.ok value, after) => next value after := by
  change (first m).bind _ = _
  cases first m with
  | none => rfl
  | some result =>
    obtain ⟨outcome, after⟩ := result
    cases outcome <;> rfl

@[simp] theorem pure_apply (value : α) (m : Machine) : (pure value : Eval α) m = some (.ok value, m) := rfl

@[simp] theorem get_apply (m : Machine) : (get : Eval Machine) m = some (.ok m, m) := rfl

@[simp] theorem isReturning_apply (m : Machine) : isReturning m = some (.ok m.returned.isSome, m) := rfl

@[simp] theorem fail_apply (position : Position) (fault : RuntimeFault) (m : Machine) :
    (fail position fault : Eval α) m = some (.error (m.error position fault), m) := rfl

/-- Where the first computation ends, the second ends in the same way. -/
def Refines (first second : Eval α) : Prop := ∀ m result, first m = some result → second m = some result

theorem Refines.refl (c : Eval α) : Refines c c := fun _ _ ended => ended

private theorem outOfFuel_refines (c : Eval α) : Refines outOfFuel c := by
  intro m result ended
  cases ended

theorem Refines.bind {first second : Eval α} {next after : α → Eval β} (step : Refines first second)
    (rest : ∀ value, Refines (next value) (after value)) : Refines (first >>= next) (second >>= after) := by
  intro m result ended
  rw [bind_apply] at ended ⊢
  cases ran : first m with
  | none => simp [ran] at ended
  | some reached =>
    rw [step m reached ran]
    rw [ran] at ended
    obtain ⟨outcome, middle⟩ := reached
    cases outcome with
    | error e => exact ended
    | ok value => exact rest value middle result ended

/-- A part, and what follows it unless a return is under way. -/
theorem Refines.thenUnlessReturning {first second : Eval α} {next after : α → Bool → Eval β}
    (step : Refines first second) (stopped : ∀ value, next value true = after value true)
    (others : ∀ value, Refines (next value false) (after value false)) :
    Refines (first >>= fun value => isReturning >>= next value) (second >>= fun value => isReturning >>= after value) := by
  refine step.bind fun value => (Refines.refl _).bind fun returning => ?_
  cases returning with
  | true =>
    rw [stopped]
    exact .refl _
  | false => exact others value

theorem Refines.inFrame {first second : Eval α} (body : Refines first second) :
    Refines (inFrame first) (inFrame second) := by
  intro m result ended
  simp only [Eval.inFrame] at ended ⊢
  cases ran : first { m with frames := {} :: m.frames } with
  | none => simp [ran] at ended
  | some reached =>
    rw [body _ reached ran]
    rwa [ran] at ended

theorem Refines.condition {first second : Eval Value} (body : Refines first second) (construct : Conditional)
    (position : Position) : Refines (condition construct position first) (condition construct position second) :=
  body.bind fun _ => .refl _

theorem Refines.inCall {first second : Eval Value} (body : Refines first second) (d : Definition)
    (args : List Value) : Refines (inCall d args first) (inCall d args second) := by
  intro m result ended
  simp only [Eval.inCall] at ended ⊢
  cases ran : first { m with
      frames := [Frame.ofParameters d.params args], returned := none, calls := d.name :: m.calls } with
  | none => simp [ran] at ended
  | some reached =>
    rw [body _ reached ran]
    rwa [ran] at ended

theorem Refines.call {first second : Node → Eval Value} (run : ∀ node, Refines (first node) (second node))
    (position : Position) (callee : Value) (args : List Value) :
    Refines (call position callee args first) (call position callee args second) := by
  cases callee with
  | function f =>
    apply Refines.bind (.refl _)
    intro m
    dsimp only
    split
    · exact .refl _
    · split
      · exact .refl _
      · split
        · exact .refl _
        · exact (run _).inCall _ args
  | _ => exact .refl _

private theorem eval_refines_succ (fuel : Nat) :
    (∀ node, Refines (eval fuel node) (eval (fuel + 1) node)) ∧
    (∀ last statements, Refines (evalStatements fuel last statements) (evalStatements (fuel + 1) last statements)) ∧
    (∀ arguments, Refines (evalArguments fuel arguments) (evalArguments (fuel + 1) arguments)) ∧
    (∀ test action, Refines (evalLoop fuel test action) (evalLoop (fuel + 1) test action)) := by
  induction fuel with
  | zero =>
    refine ⟨?_, ?_, ?_, ?_⟩ <;> intros <;> exact outOfFuel_refines _
  | succ fuel ih =>
    obtain ⟨node, statements, arguments, loop⟩ := ih
    refine ⟨fun part => ?_, fun last parts => ?_, fun parts => ?_, fun test action => ?_⟩
    · cases part with
      | set position name value => exact (node value).bind fun _ => .refl _
      | block position parts => exact (statements .empty parts).inFrame
      | branch position test action otherwise =>
        refine ((node test).condition .branch _).bind fun found => ?_
        rcases found with _ | (_ | _)
        · exact .refl _
        · dsimp only
          split
          · exact .refl _
          · exact node otherwise
        · exact node action
      | loop position test action => exact loop test action
      | ret position value => exact (node value).bind fun _ => .refl _
      | call position function given =>
        refine (node function).thenUnlessReturning (fun _ => rfl) fun callee => (arguments given).bind fun args => ?_
        cases args with
        | none => exact .refl _
        | some args => exact .call node position callee args
      | _ => exact .refl _
    · cases parts with
      | nil => exact .refl _
      | cons part rest =>
        exact (node part).thenUnlessReturning (fun _ => rfl) fun value => statements value rest
    · cases parts with
      | nil => exact .refl _
      | cons part rest =>
        exact (node part).thenUnlessReturning (fun _ => rfl) fun _ => (arguments rest).bind fun _ => .refl _
    · refine ((node test).condition .loop _).bind fun found => ?_
      rcases found with _ | (_ | _)
      · exact .refl _
      · exact .refl _
      · exact (node action).thenUnlessReturning (fun _ => rfl) fun _ => loop test action

/-- More fuel changes no result of the computation. -/
def Grows (run : Nat → Eval α) : Prop := ∀ {fuel more : Nat}, fuel ≤ more → Refines (run fuel) (run more)

private theorem grows_of_succ {run : Nat → Eval α} (succ : ∀ fuel, Refines (run fuel) (run (fuel + 1))) :
    Grows run := by
  intro fuel more le
  induction le with
  | refl => exact .refl _
  | step _ ih => exact fun m result ended => succ _ m result (ih m result ended)

theorem eval_grows (node : Node) : Grows fun fuel => eval fuel node :=
  grows_of_succ fun fuel => (eval_refines_succ fuel).1 node

theorem evalStatements_grows (last : Value) (statements : List Node) :
    Grows fun fuel => evalStatements fuel last statements :=
  grows_of_succ fun fuel => (eval_refines_succ fuel).2.1 last statements

theorem evalArguments_grows (arguments : List Node) : Grows fun fuel => evalArguments fuel arguments :=
  grows_of_succ fun fuel => (eval_refines_succ fuel).2.2.1 arguments

theorem evalLoop_grows (test action : Node) : Grows fun fuel => evalLoop fuel test action :=
  grows_of_succ fun fuel => (eval_refines_succ fuel).2.2.2 test action

end Scriptlet.Proofs.EvalFuel
