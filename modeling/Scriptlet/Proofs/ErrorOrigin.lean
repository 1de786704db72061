import Scriptlet.Proofs.EvalMoments
import Scriptlet.Proofs.ReturnRefinement

/-! Where an error comes from. Either a node raises it, or one of the evaluations that the node has started ends
with it; so every error was raised at one moment of the run. From then on nothing is evaluated any more: blocks and
calls are left, and what had been written and set until then stays. -/

namespace Scriptlet.Proofs.ErrorOrigin
open Eval EvalFuel StructuredReturn EvalChange EvalMoments

/-- Why a value cannot be called with these arguments. -/
inductive Refuses (m : Machine) : Value → List Value → RuntimeFault → Prop where
  | unknown {name args} (unknown : Native.ofName? name = none) :
      Refuses m (.native name) args (.unknownNative name)
  | native {name args f fault} (known : Native.ofName? name = some f)
      (failed : (f.apply args m.sink).1 = .error fault) : Refuses m (.native name) args (.native fault)
  | function {f args fault} (refused : refusal? m f args = some fault) : Refuses m (.function f) args fault
  | other {v args} (native : ∀ name, v ≠ .native name) (function : ∀ f, v ≠ .function f) :
      Refuses m v args (.notCallable v)

/-- A node raises an error itself, once its parts up to there have ended well: the machine it does so on, and the
place and the fault that it names. -/
inductive Raises : Moment → Machine → Position → RuntimeFault → Prop where
  | absent {m} : Raises ⟨m, .absent⟩ m {} .unsupported
  | unknown {m p} : Raises ⟨m, .unknown p⟩ m p .unsupported
  | get {m p name} (missing : m.lookup name = none) : Raises ⟨m, .get p name⟩ m p (.unknownVariable name)
  | member {m p base name} : Raises ⟨m, .member p base name⟩ m p (.memberAccess name)
  | branch {m p test action otherwise fuel v mid} (found : eval fuel test m = some (.ok v, mid)) (idle : Idle mid)
      (kind : ∀ b, v ≠ .bool b) :
      Raises ⟨m, .branch p test action otherwise⟩ mid test.position (.badCondition .branch v)
  | loop {m p test action fuel v mid} (found : eval fuel test m = some (.ok v, mid)) (idle : Idle mid)
      (kind : ∀ b, v ≠ .bool b) : Raises ⟨m, .loop p test action⟩ mid test.position (.badCondition .loop v)
  | call {m p function arguments fuel callee mid more args ready fault}
      (first : eval fuel function m = some (.ok callee, mid)) (idle : Idle mid)
      (given : evalArguments more arguments mid = some (.ok (some args), ready))
      (refuses : Refuses ready callee args fault) : Raises ⟨m, .call p function arguments⟩ ready p fault

section Calls
variable {m after : Machine} {position : Position} {callee : Value} {args : List Value} {run : Node → Eval Value}

/-- A built-in function that fails writes nothing. -/
theorem apply_fails {f : Native} {sink : Sink} {fault : NativeFault} (failed : (f.apply args sink).1 = .error fault) :
    (f.apply args sink).2 = sink := by
  unfold Native.apply at failed ⊢
  split
  next printing =>
    rw [if_pos printing] at failed
    split at failed
    · cases failed
    · rfl
  · rfl

theorem Refuses.called {fault : RuntimeFault} (refuses : Refuses m callee args fault) :
    call position callee args run m = some (.error (m.error position fault), m) := by
  cases refuses with
  | unknown unknown => exact call_unknown unknown
  | native known failed => rw [call_known known, failed, apply_fails failed]; rfl
  | function refused => rw [call, callFunction_eq, refused]
  | other native function => exact call_other native function

/-- A call that ends with an error was refused, or the body of the function ended with it. -/
theorem call_failed {e : RuntimeError} (failed : call position callee args run m = some (.error e, after)) :
    (∃ fault, Refuses m callee args fault ∧ e = m.error position fault ∧ after = m) ∨
    ∃ f inside, callee = .function f ∧ refusal? m f args = none ∧
      run (m.definition f).body (beginCall m (m.definition f) args) = some (.error e, inside) ∧
      after = endCall m inside := by
  have refused {fault} (refuses : Refuses m callee args fault) :
      ∃ fault, Refuses m callee args fault ∧ e = m.error position fault ∧ after = m := by
    cases refuses.called.symm.trans failed
    exact ⟨fault, refuses, rfl, rfl⟩
  cases callee with
  | native name =>
    cases known : Native.ofName? name with
    | none => exact Or.inl (refused (.unknown known))
    | some f =>
      cases applied : (f.apply args m.sink).1 with
      | error fault => exact Or.inl (refused (.native known applied))
      | ok value =>
        rw [call_known known, applied] at failed
        cases failed
  | function f =>
    cases declined : refusal? m f args with
    | some fault => exact Or.inl (refused (.function declined))
    | none =>
      rw [call, callFunction_eq, declined, inCall_eq] at failed
      obtain ⟨⟨outcome, inside⟩, ran, done⟩ := Option.map_eq_some_iff.mp failed
      cases outcome with
      | ok value => cases done
      | error _ =>
        cases done
        exact Or.inr ⟨f, inside, rfl, declined, ran, rfl⟩
  | _ => exact Or.inl (refused (.other (by simp) (by simp)))

end Calls

private theorem eval_loop (fuel : Nat) (p : Position) (test action : Node) :
    eval (fuel + 1) (.loop p test action) = evalLoop fuel test action := rfl

theorem Raises.fails {now : Moment} {here : Machine} {position : Position} {fault : RuntimeFault}
    (raises : Raises now here position fault) :
    ∃ fuel, eval fuel now.node now.machine = some (.error (here.error position fault), here) := by
  cases raises with
  | absent => exact ⟨1, rfl⟩
  | unknown => exact ⟨1, rfl⟩
  | get missing => exact ⟨1, by rw [eval_get, missing]⟩
  | member => exact ⟨1, rfl⟩
  | @branch m p test action otherwise fuel v mid found idle kind =>
    refine ⟨fuel + 1, ?_⟩
    rw [eval_branch, checked_normal found idle, onCondition_bad kind, fail_apply]
  | @loop m p test action fuel v mid found idle kind =>
    refine ⟨fuel + 2, ?_⟩
    rw [eval_loop, evalLoop_eq, checked_normal found idle, onCondition_bad kind, fail_apply]
  | @call m p function arguments fuel callee mid more args ready fault first idle given refuses =>
    have found : eval (max fuel more) function m = _ := eval_grows function (Nat.le_max_left ..) m _ first
    have known : evalArguments (max fuel more) arguments mid = _ :=
      evalArguments_grows arguments (Nat.le_max_right ..) mid _ given
    refine ⟨max fuel more + 1, ?_⟩
    rw [eval_call, checked_normal found idle, bind_apply, known]
    exact refuses.called

/-- No more than scopes has been left since. -/
structure Unwound (here after : Machine) : Prop where
  globals : after.globals = here.globals
  sink : after.sink = here.sink

theorem Unwound.refl (m : Machine) : Unwound m m := ⟨rfl, rfl⟩

section Failed
variable {α β : Type} {e : RuntimeError} {m after : Machine} {fuel : Nat}

private theorem checked_failed {first : Eval α} {stop : α → β} {next : α → Eval β}
    (failed : checked first stop next m = some (.error e, after)) :
    first m = some (.error e, after) ∨
    ∃ value mid, first m = some (.ok value, mid) ∧ Idle mid ∧ next value mid = some (.error e, after) := by
  rw [checked, bind_apply] at failed
  cases ran : first m with
  | none => simp [ran] at failed
  | some result =>
    obtain ⟨outcome, mid⟩ := result
    cases outcome with
    | error _ =>
      rw [ran] at failed
      cases failed
      exact Or.inl rfl
    | ok value =>
      simp only [ran, bind_apply, isReturning_apply] at failed
      cases returned : mid.returned with
      | some _ =>
        rw [returned] at failed
        cases failed
      | none =>
        rw [returned] at failed
        exact Or.inr ⟨value, mid, rfl, returned, failed⟩

/-- The evaluation of a started part ends with the error, in less time than the fuel allows for. -/
def FailsIn (fuel : Nat) (e : RuntimeError) (inner : Machine) (next : Moment) : Prop :=
  ∃ less, less ≤ fuel ∧ eval less next.node next.machine = some (.error e, inner)

theorem FailsIn.mono {more : Nat} {inner : Machine} {next : Moment} (fails : FailsIn fuel e inner next)
    (le : fuel ≤ more) : FailsIn more e inner next := by
  obtain ⟨less, bound, failed⟩ := fails
  exact ⟨less, Nat.le_trans bound le, failed⟩

theorem evalStatements_failed {last : Value} {nodes : List Node}
    (failed : evalStatements fuel last nodes m = some (.error e, after)) :
    ∃ next, Among m nodes next ∧ FailsIn fuel e after next := by
  induction nodes generalizing m last fuel with
  | nil => cases fuel <;> cases failed
  | cons node rest ih =>
    cases fuel with
    | zero => cases failed
    | succ fuel =>
      rw [evalStatements_cons] at failed
      rcases checked_failed failed with failed | ⟨value, mid, ran, idle, failed⟩
      · exact ⟨_, .first, fuel, Nat.le_succ fuel, failed⟩
      · obtain ⟨next, among, fails⟩ := ih failed
        exact ⟨next, .later ran idle among, fails.mono (Nat.le_succ fuel)⟩

private theorem evalArguments_failed {nodes : List Node}
    (failed : evalArguments fuel nodes m = some (.error e, after)) :
    ∃ next, Among m nodes next ∧ FailsIn fuel e after next := by
  induction nodes generalizing m fuel with
  | nil => cases fuel <;> cases failed
  | cons node rest ih =>
    cases fuel with
    | zero => cases failed
    | succ fuel =>
      rw [evalArguments_cons] at failed
      rcases checked_failed failed with failed | ⟨value, mid, ran, idle, failed⟩
      · exact ⟨_, .first, fuel, Nat.le_succ fuel, failed⟩
      · rw [bind_apply] at failed
        cases others : evalArguments fuel rest mid with
        | none => simp [others] at failed
        | some result =>
          obtain ⟨outcome, reached⟩ := result
          rw [others] at failed
          cases outcome with
          | ok values => cases failed
          | error _ =>
            cases failed
            obtain ⟨next, among, fails⟩ := ih others
            exact ⟨next, .later ran idle among, fails.mono (Nat.le_succ fuel)⟩

/-- An evaluation that ends with an error raises it, or has started one that ends with it. -/
theorem eval_failed {node : Node} (failed : eval (fuel + 1) node m = some (.error e, after)) :
    (∃ position fault, Raises ⟨m, node⟩ after position fault ∧ e = after.error position fault) ∨
    ∃ next inner, Starts ⟨m, node⟩ next ∧ FailsIn fuel e inner next ∧ Unwound inner after := by
  have started {next : Moment} (starts : Starts ⟨m, node⟩ next) (fails : FailsIn fuel e after next) :
      ∃ next inner, Starts ⟨m, node⟩ next ∧ FailsIn fuel e inner next ∧ Unwound inner after :=
    ⟨next, after, starts, fails, .refl after⟩
  cases node with
  | absent =>
    cases failed
    exact Or.inl ⟨_, _, .absent, rfl⟩
  | unknown p =>
    cases failed
    exact Or.inl ⟨_, _, .unknown, rfl⟩
  | const p value => cases failed
  | member p base name =>
    cases failed
    exact Or.inl ⟨_, _, .member, rfl⟩
  | get p name =>
    rw [eval_get] at failed
    cases missing : m.lookup name with
    | some value =>
      rw [missing] at failed
      cases failed
    | none =>
      rw [missing] at failed
      cases failed
      exact Or.inl ⟨_, _, .get missing, rfl⟩
  | set p name value =>
    rw [eval_set] at failed
    rcases checked_failed failed with failed | ⟨v, mid, ran, idle, failed⟩
    · exact Or.inr (started .assigned ⟨fuel, Nat.le_refl _, failed⟩)
    · cases failed
  | ret p value =>
    rw [eval_ret] at failed
    rcases checked_failed failed with failed | ⟨v, mid, ran, idle, failed⟩
    · exact Or.inr (started .returned ⟨fuel, Nat.le_refl _, failed⟩)
    · cases failed
  | block p nodes =>
    rw [eval, inFrame_apply] at failed
    obtain ⟨⟨outcome, inner⟩, ran, done⟩ := Option.map_eq_some_iff.mp failed
    cases done
    obtain ⟨next, among, fails⟩ := evalStatements_failed ran
    exact Or.inr ⟨next, inner, .statement among, fails, ⟨rfl, rfl⟩⟩
  | branch p test action otherwise =>
    rw [eval_branch] at failed
    rcases checked_failed failed with failed | ⟨v, mid, ran, idle, failed⟩
    · exact Or.inr (started .branchTest ⟨fuel, Nat.le_refl _, failed⟩)
    · rcases onCondition_cases failed with ⟨rfl, failed⟩ | ⟨rfl, failed⟩ | ⟨kind, same⟩
      · exact Or.inr (started (.branchThen ran idle) ⟨fuel, Nat.le_refl _, failed⟩)
      · split at failed
        · cases failed
        next given =>
          exact Or.inr (started (.branchElse ran idle (by simpa using given)) ⟨fuel, Nat.le_refl _, failed⟩)
      · cases same
        exact Or.inl ⟨_, _, .branch ran idle kind, rfl⟩
  | loop p test action =>
    cases fuel with
    | zero => cases failed
    | succ fuel =>
      rw [eval_loop, evalLoop_eq] at failed
      rcases checked_failed failed with failed | ⟨v, mid, ran, idle, failed⟩
      · exact Or.inr (started .loopTest ⟨fuel, Nat.le_succ _, failed⟩)
      · rcases onCondition_cases failed with ⟨rfl, failed⟩ | ⟨rfl, failed⟩ | ⟨kind, same⟩
        · rcases checked_failed failed with failed | ⟨_, reached, turn, still, failed⟩
          · exact Or.inr (started (.loopTurn ran idle) ⟨fuel, Nat.le_succ _, failed⟩)
          · exact Or.inr (started (.loopAgain ran idle turn still) ⟨fuel + 1, Nat.le_refl _, failed⟩)
        · cases failed
        · cases same
          exact Or.inl ⟨_, _, .loop ran idle kind, rfl⟩
  | call p function arguments =>
    rw [eval_call] at failed
    rcases checked_failed failed with failed | ⟨callee, mid, ran, idle, failed⟩
    · exact Or.inr (started .callee ⟨fuel, Nat.le_refl _, failed⟩)
    · rw [bind_apply] at failed
      cases given : evalArguments fuel arguments mid with
      | none => simp [given] at failed
      | some result =>
        obtain ⟨outcome, ready⟩ := result
        rw [given] at failed
        rcases outcome with _ | (_ | args)
        · cases failed
          obtain ⟨next, among, fails⟩ := evalArguments_failed given
          exact Or.inr (started (.argument ran idle among) fails)
        · cases failed
        · rcases call_failed failed with ⟨fault, refuses, rfl, rfl⟩ | ⟨f, inside, rfl, accepted, body, rfl⟩
          · exact Or.inl ⟨_, _, .call ran idle given refuses, rfl⟩
          · exact Or.inr ⟨_, inside, .body ran idle given accepted, ⟨fuel, Nat.le_refl _, body⟩, ⟨rfl, rfl⟩⟩

/-- Every error was raised at some moment of the run, and all that followed was the way back. -/
theorem error_origin {now : Moment} (failed : eval fuel now.node now.machine = some (.error e, after)) :
    ∃ source here position fault, Reaches now source ∧ Raises source here position fault ∧
      e = here.error position fault ∧ Unwound here after := by
  induction fuel using Nat.strongRecOn generalizing now after with
  | _ fuel ih =>
    cases fuel with
    | zero => cases failed
    | succ fuel =>
      rcases eval_failed failed with ⟨position, fault, raises, same⟩ | ⟨next, inner, starts, ⟨less, le, inside⟩, back⟩
      · exact ⟨now, after, position, fault, .refl, raises, same, .refl after⟩
      · obtain ⟨source, here, position, fault, reached, raises, same, unwound⟩ := ih less (Nat.lt_succ_of_le le) inside
        exact ⟨source, here, position, fault, .head starts reached, raises, same,
          back.globals.trans unwound.globals, back.sink.trans unwound.sink⟩

end Failed

end Scriptlet.Proofs.ErrorOrigin
