import Scriptlet.Proofs.ReturnRecord

/-! Evaluation implements structured return. From a machine without a return under way it ends in the
outcomes that the rules give and in no others, with the same frames and the same output. -/

namespace Scriptlet.Proofs.StructuredReturn
open Eval EvalFuel

section EndsShowing
variable {α β γ : Type} {m mid after : Machine}

/-- With enough fuel the computation ends and shows the outcome. -/
def EndsShowing (run : Nat → Eval β) (shows : Outcome α → Machine → Except RuntimeError β × Machine → Prop)
    (m : Machine) (outcome : Outcome α) (after : Machine) : Prop :=
  ∃ fuel result, run fuel m = some result ∧ shows outcome after result

section Checked
variable {run : Nat → Eval β} {first : Nat → Eval Value} {stop : Value → β} {next : Nat → Value → Eval β}

private theorem ends_checked {shows : Outcome α → Machine → Except RuntimeError β × Machine → Prop} {value : Value}
    {outcome : Outcome α} (firstGrows : Grows first) (nextGrows : Grows fun fuel => next fuel value)
    (part : EndsShowing first ShowsValue m (.normal value) mid)
    (rest : Idle mid → EndsShowing (fun fuel => next fuel value) shows mid outcome after) :
    EndsShowing (fun fuel => checked (first fuel) stop (next fuel)) shows m outcome after := by
  obtain ⟨small, result, ran, shown⟩ := part
  cases shown with
  | normal idle =>
    obtain ⟨large, final, finished, shown⟩ := rest idle
    refine ⟨max small large, final, ?_, shown⟩
    simp only [checked_normal (firstGrows (Nat.le_max_left small large) m _ ran) idle]
    exact nextGrows (Nat.le_max_right ..) mid _ finished

private theorem ends_checked_abrupt {shown : α → β} {ignored : β → Prop} {reason : Abrupt}
    (part : EndsShowing first ShowsValue m (.abrupt reason) after) (any : ∀ value, ignored (stop value)) :
    EndsShowing (fun fuel => checked (first fuel) stop (next fuel)) (Shows shown ignored) m (.abrupt reason) after := by
  obtain ⟨fuel, result, ran, shows⟩ := part
  cases shows with
  | abrupt breaks =>
    obtain ⟨final, finished, breaks⟩ := checked_breaks ran breaks any
    exact ⟨fuel, final, finished, .abrupt breaks⟩

private theorem checked_grows (firstGrows : Grows first) (nextGrows : ∀ value, Grows fun fuel => next fuel value) :
    Grows fun fuel => checked (first fuel) stop (next fuel) := by
  intro fuel more le
  refine (firstGrows le).bind fun value => (Refines.refl _).bind fun returning => ?_
  cases returning with
  | true => exact .refl _
  | false => exact nextGrows value le

variable (step : ∀ fuel, run (fuel + 1) = checked (first fuel) stop (next fuel))
include step

private theorem ends_normal {shows : Outcome α → Machine → Except RuntimeError β × Machine → Prop} {value : Value}
    {outcome : Outcome α} (firstGrows : Grows first) (nextGrows : Grows fun fuel => next fuel value)
    (part : EndsShowing first ShowsValue m (.normal value) mid)
    (rest : Idle mid → EndsShowing (fun fuel => next fuel value) shows mid outcome after) :
    EndsShowing run shows m outcome after := by
  obtain ⟨fuel, final, finished, shown⟩ := ends_checked firstGrows nextGrows part rest
  exact ⟨fuel + 1, final, step fuel ▸ finished, shown⟩

private theorem ends_abrupt {shown : α → β} {ignored : β → Prop} {reason : Abrupt}
    (part : EndsShowing first ShowsValue m (.abrupt reason) after) (any : ∀ value, ignored (stop value)) :
    EndsShowing run (Shows shown ignored) m (.abrupt reason) after := by
  obtain ⟨fuel, final, finished, shown⟩ := ends_checked_abrupt part any
  exact ⟨fuel + 1, final, step fuel ▸ finished, shown⟩

end Checked

/-- A computation that ends at once does so with any fuel but none. -/
theorem ends_at_once {run : Nat → Eval β} {shows : Outcome α → Machine → Except RuntimeError β × Machine → Prop}
    {outcome : Outcome α} {result : Except RuntimeError β × Machine} (ran : run 1 m = some result)
    (shown : shows outcome after result) : EndsShowing run shows m outcome after :=
  ⟨1, result, ran, shown⟩

private theorem shows_raise (idle : Idle m) (position : Position) (fault : RuntimeFault) :
    ShowsValue (raise m position fault) m (.error (m.error position fault), m) :=
  .abrupt (.error idle)

private theorem applied_grows (position : Position) (callee : Value) (arguments : List Node) :
    Grows fun fuel => evalArguments fuel arguments >>= applied (eval fuel) position callee := by
  intro fuel more le
  refine (evalArguments_grows arguments le).bind fun args => ?_
  cases args with
  | none => exact .refl _
  | some args => exact .call (fun node => eval_grows node le) position callee args

private theorem ends_applied {position : Position} {callee : Value} {arguments : List Node} {args : List Value}
    {outcome : Outcome Value} (given : EndsShowing (fun fuel => evalArguments fuel arguments) ShowsList m (.normal args) mid)
    (called : Idle mid → EndsShowing (fun fuel => call position callee args (eval fuel)) ShowsValue mid outcome after) :
    EndsShowing (fun fuel => evalArguments fuel arguments >>= applied (eval fuel) position callee) ShowsValue
      m outcome after := by
  obtain ⟨small, result, ran, shown⟩ := given
  cases shown with
  | normal idle =>
    obtain ⟨large, final, finished, shown⟩ := called idle
    refine ⟨max small large, final, ?_, shown⟩
    have ran : evalArguments (max small large) arguments m = _ :=
      evalArguments_grows arguments (Nat.le_max_left small large) m _ ran
    simp only [bind_apply, ran]
    exact Refines.call (fun node => eval_grows node (Nat.le_max_right small large)) position callee args mid _ finished

private theorem ends_applied_abrupt {position : Position} {callee : Value} {arguments : List Node} {reason : Abrupt}
    (given : EndsShowing (fun fuel => evalArguments fuel arguments) ShowsList m (.abrupt reason) after) :
    EndsShowing (fun fuel => evalArguments fuel arguments >>= applied (eval fuel) position callee) ShowsValue
      m (.abrupt reason) after := by
  obtain ⟨fuel, result, ran, shown⟩ := given
  cases shown with
  | abrupt breaks =>
    cases breaks with
    | ret idle none =>
      subst none
      exact ⟨fuel, (.ok .empty, _), by simp only [bind_apply, ran]; rfl, .abrupt (.ret idle trivial)⟩
    | error idle => exact ⟨fuel, _, by simp only [bind_apply, ran], .abrupt (.error idle)⟩

private theorem constant_grows (c : Eval β) : Grows fun _ => c := fun _ => .refl c

theorem onCondition_bad {construct : Conditional} {position : Position} {yes no : Eval Value} {value : Value}
    (kind : ∀ b, value ≠ .bool b) :
    onCondition construct position yes no value = fail position (.badCondition construct value) := by
  cases value with
  | bool b => exact absurd rfl (kind b)
  | _ => rfl

private theorem ends_fail (idle : Idle m) (position : Position) (fault : RuntimeFault) :
    EndsShowing (fun _ => fail position fault) ShowsValue m (raise m position fault) m :=
  ends_at_once (fail_apply position fault m) (shows_raise idle position fault)

private theorem ends_empty (idle : Idle m) : EndsShowing (fun _ => pure .empty) ShowsValue m (.normal .empty) m :=
  ends_at_once (pure_apply _ m) (.normal idle)

private theorem turn_grows (test action : Node) :
    Grows fun fuel => checked (eval fuel action) (fun _ => Value.empty) fun _ => evalLoop fuel test action :=
  checked_grows (eval_grows action) fun _ => evalLoop_grows test action

/-- A loop as a node takes one unit of fuel more than its turns do. -/
theorem ends_loop {position : Position} {test action : Node} {outcome : Outcome Value} :
    EndsShowing (fun fuel => eval fuel (.loop position test action)) ShowsValue m outcome after ↔
      EndsShowing (fun fuel => evalLoop fuel test action) ShowsValue m outcome after := by
  constructor
  · rintro ⟨fuel, result, ran, shown⟩
    cases fuel with
    | zero => cases ran
    | succ fuel => exact ⟨fuel, result, ran, shown⟩
  · rintro ⟨fuel, result, ran, shown⟩
    exact ⟨fuel + 1, result, ran, shown⟩

private theorem assign_idle (idle : Idle m) (name : String) (value : Value) : Idle (m.assign name value) := by
  simp only [Machine.assign]
  split
  · exact idle
  · split
    · exact idle
    · split <;> exact idle

private theorem ends_listed {rest : List Node} {value : Value} {outcome : Outcome (List Value)}
    (others : EndsShowing (fun fuel => evalArguments fuel rest) ShowsList m outcome after) :
    EndsShowing (fun fuel => do return (← evalArguments fuel rest).map (value :: ·)) ShowsList m
      (match outcome with
        | .normal values => .normal (value :: values)
        | .abrupt reason => .abrupt reason) after := by
  obtain ⟨fuel, result, ran, shown⟩ := others
  cases shown with
  | normal idle => exact ⟨fuel, _, by simp only [bind_apply, ran]; rfl, .normal idle⟩
  | abrupt breaks =>
    cases breaks with
    | ret idle none =>
      subst none
      exact ⟨fuel, _, by simp only [bind_apply, ran]; rfl, .abrupt (.ret idle rfl)⟩
    | error idle => exact ⟨fuel, _, by simp only [bind_apply, ran], .abrupt (.error idle)⟩

private theorem listed_grows (rest : List Node) (value : Value) :
    Grows fun fuel => do return (← evalArguments fuel rest).map (value :: ·) := by
  intro fuel more le
  exact (evalArguments_grows rest le).bind fun _ => .refl _

end EndsShowing

-- The induction is on the derivation; what its parts end with is put together with enough fuel for all.
mutual

theorem Evaluates.ends : ∀ {m : Machine} {node : Node} {outcome : Outcome Value} {after : Machine},
    Evaluates m node outcome after → Idle m → EndsShowing (fun fuel => eval fuel node) ShowsValue m outcome after := by
  intro m node outcome after derived idle
  match derived with
  | .absent => exact ends_at_once rfl (shows_raise idle _ _)
  | .unknown => exact ends_at_once rfl (shows_raise idle _ _)
  | .const => exact ends_at_once rfl (.normal idle)
  | .get found => exact ends_at_once (by simp only [eval, bind_apply, get_apply, found]; rfl) (.normal idle)
  | .getUnknown missing =>
    exact ends_at_once (by simp only [eval, bind_apply, get_apply, missing]; rfl) (shows_raise idle _ _)
  | .set value =>
    exact ends_normal (fun fuel => eval_set fuel _ _ _) (eval_grows _) (constant_grows _) (value.ends idle)
      fun idle => ends_at_once rfl (.normal (assign_idle idle _ _))
  | .setAbrupt value => exact ends_abrupt (fun fuel => eval_set fuel _ _ _) (value.ends idle) fun _ => trivial
  | .block body =>
    obtain ⟨fuel, result, ran, shown⟩ := body.ends idle
    obtain ⟨final, finished, shown⟩ := inFrame_shows ran shown
    exact ⟨fuel + 1, final, finished, shown⟩
  | .branchThen holds taken =>
    exact ends_normal (fun fuel => eval_branch fuel _ _ _ _) (eval_grows _) (eval_grows _) (holds.ends idle)
      fun idle => taken.ends idle
  | .branchElse fails given taken =>
    refine ends_normal (fun fuel => eval_branch fuel _ _ _ _) (eval_grows _) ?_ (fails.ends idle) fun idle => ?_
    · simp only [onCondition, given, Bool.false_eq_true, ↓reduceIte]
      exact eval_grows _
    · simp only [onCondition, given, Bool.false_eq_true, ↓reduceIte]
      exact taken.ends idle
  | .branchNone fails missing =>
    refine ends_normal (fun fuel => eval_branch fuel _ _ _ _) (eval_grows _) ?_ (fails.ends idle) fun idle => ?_
    · simp only [onCondition, missing, ↓reduceIte]
      exact constant_grows _
    · simp only [onCondition, missing, ↓reduceIte]
      exact ends_empty idle
  | .branchBad bad kind =>
    refine ends_normal (fun fuel => eval_branch fuel _ _ _ _) (eval_grows _) ?_ (bad.ends idle) fun idle => ?_
    · simp only [onCondition_bad kind]
      exact constant_grows _
    · simp only [onCondition_bad kind]
      exact ends_fail idle _ _
  | .branchAbrupt broken =>
    exact ends_abrupt (fun fuel => eval_branch fuel _ _ _ _) (broken.ends idle) fun _ => trivial
  | .loopAgain holds turn again =>
    refine ends_loop.mpr (ends_normal (fun fuel => evalLoop_eq fuel _ _) (eval_grows _) (turn_grows _ _)
      (holds.ends idle) fun idle => ?_)
    exact ends_checked (eval_grows _) (evalLoop_grows _ _) (turn.ends idle) fun idle => ends_loop.mp (again.ends idle)
  | .loopBreak holds turn =>
    refine ends_loop.mpr (ends_normal (fun fuel => evalLoop_eq fuel _ _) (eval_grows _) (turn_grows _ _)
      (holds.ends idle) fun idle => ?_)
    exact ends_checked_abrupt (turn.ends idle) fun _ => trivial
  | .loopDone fails =>
    exact ends_loop.mpr (ends_normal (fun fuel => evalLoop_eq fuel _ _) (eval_grows _) (constant_grows _) (fails.ends idle)
      fun idle => ends_empty idle)
  | .loopBad bad kind =>
    refine ends_loop.mpr (ends_normal (fun fuel => evalLoop_eq fuel _ _) (eval_grows _) ?_ (bad.ends idle)
      fun idle => ?_)
    · simp only [onCondition_bad kind]
      exact constant_grows _
    · simp only [onCondition_bad kind]
      exact ends_fail idle _ _
  | .loopAbrupt broken =>
    exact ends_loop.mpr (ends_abrupt (fun fuel => evalLoop_eq fuel _ _) (broken.ends idle) fun _ => trivial)
  | .ret value =>
    exact ends_normal (fun fuel => eval_ret fuel _ _) (eval_grows _) (constant_grows _) (value.ends idle)
      fun idle => ends_at_once rfl (.abrupt (.ret idle trivial))
  | .retAbrupt value => exact ends_abrupt (fun fuel => eval_ret fuel _ _) (value.ends idle) fun _ => trivial
  | .call first given applied =>
    exact ends_normal (fun fuel => eval_call fuel _ _ _) (eval_grows _) (applied_grows _ _ _) (first.ends idle)
      fun idle => ends_applied (given.ends idle) fun idle => applied.ends idle
  | .callAbrupt first => exact ends_abrupt (fun fuel => eval_call fuel _ _ _) (first.ends idle) fun _ => trivial
  | .callArgumentAbrupt first given =>
    exact ends_normal (fun fuel => eval_call fuel _ _ _) (eval_grows _) (applied_grows _ _ _) (first.ends idle)
      fun idle => ends_applied_abrupt (given.ends idle)
  | .member => exact ends_at_once rfl (shows_raise idle _ _)

theorem EvaluatesAll.ends : ∀ {m : Machine} {last : Value} {nodes : List Node} {outcome : Outcome Value}
    {after : Machine}, EvaluatesAll m last nodes outcome after → Idle m →
    EndsShowing (fun fuel => evalStatements fuel last nodes) ShowsValue m outcome after := by
  intro m last nodes outcome after derived idle
  match derived with
  | .nil => exact ends_at_once rfl (.normal idle)
  | .cons first others =>
    exact ends_normal (fun fuel => evalStatements_cons fuel _ _ _) (eval_grows _) (evalStatements_grows _ _)
      (first.ends idle) fun idle => others.ends idle
  | .stop first => exact ends_abrupt (fun fuel => evalStatements_cons fuel _ _ _) (first.ends idle) fun _ => trivial

theorem EvaluatesEach.ends : ∀ {m : Machine} {nodes : List Node} {outcome : Outcome (List Value)}
    {after : Machine}, EvaluatesEach m nodes outcome after → Idle m →
    EndsShowing (fun fuel => evalArguments fuel nodes) ShowsList m outcome after := by
  intro m nodes outcome after derived idle
  match derived with
  | .nil => exact ends_at_once rfl (.normal idle)
  | .cons first others =>
    exact ends_normal (fun fuel => evalArguments_cons fuel _ _) (eval_grows _) (listed_grows _ _)
      (first.ends idle) fun idle => ends_listed (others.ends idle)
  | .later first others =>
    exact ends_normal (fun fuel => evalArguments_cons fuel _ _) (eval_grows _) (listed_grows _ _)
      (first.ends idle) fun idle => ends_listed (others.ends idle)
  | .stop first => exact ends_abrupt (fun fuel => evalArguments_cons fuel _ _) (first.ends idle) fun _ => rfl

theorem Calls.ends : ∀ {m : Machine} {position : Position} {callee : Value} {args : List Value}
    {outcome : Outcome Value} {after : Machine}, Calls m position callee args outcome after → Idle m →
    EndsShowing (fun fuel => call position callee args (eval fuel)) ShowsValue m outcome after := by
  intro m position callee args outcome after derived idle
  match derived with
  | .native known applied => exact ends_at_once (call_native known applied) (.normal idle)
  | .nativeFault known applied => exact ends_at_once (call_fault known applied) (.abrupt (.error idle))
  | .nativeUnknown unknown => exact ends_at_once (call_unknown unknown) (shows_raise idle _ _)
  | .function fits shallow given body =>
    obtain ⟨fuel, result, ran, shown⟩ := body.ends idle
    obtain ⟨final, finished, shown⟩ := inCall_shows idle ran shown
    exact ⟨fuel, final, (call_function fits shallow given).trans finished, shown⟩
  | .arity differs => exact ends_at_once (call_arity differs) (shows_raise idle _ _)
  | .overflow fits deep => exact ends_at_once (call_overflow fits deep) (shows_raise idle _ _)
  | .noBody fits shallow missing => exact ends_at_once (call_noBody fits shallow missing) (shows_raise idle _ _)
  | .notCallable native function => exact ends_at_once (call_other native function) (shows_raise idle _ _)

end

section Derives
variable {α β : Type} {m : Machine}

/-- Started without a return under way, the computation ends only with outcomes of the rule. -/
def Derives (run : Eval β) (shows : Outcome α → Machine → Except RuntimeError β × Machine → Prop)
    (rule : Machine → Outcome α → Machine → Prop) : Prop :=
  ∀ m result, Idle m → run m = some result → ∃ outcome after, rule m outcome after ∧ shows outcome after result

private theorem call_derives {run : Node → Eval Value}
    (sound : ∀ node, Derives (run node) ShowsValue (Evaluates · node))
    (position : Position) (callee : Value) (args : List Value) :
    Derives (call position callee args run) ShowsValue (Calls · position callee args) := by
  intro m result idle ended
  cases callee with
  | native name =>
    cases known : Native.ofName? name with
    | none =>
      cases (call_unknown known).symm.trans ended
      exact ⟨_, _, .nativeUnknown known, shows_raise idle _ _⟩
    | some native =>
      rcases applied : native.apply args m.sink with ⟨outcome, sink⟩
      cases outcome with
      | ok value =>
        cases (call_native known applied).symm.trans ended
        exact ⟨_, _, .native known applied, .normal idle⟩
      | error fault =>
        cases (call_fault known applied).symm.trans ended
        exact ⟨_, _, .nativeFault known applied, .abrupt (.error idle)⟩
  | function f =>
    by_cases fits : args.length = (m.definition f).params.length
    · rcases Nat.lt_or_ge m.calls.length m.depthLimit with shallow | deep
      · cases given : (m.definition f).body.isAbsent with
        | true =>
          cases (call_noBody fits shallow given).symm.trans ended
          exact ⟨_, _, .noBody fits shallow given, shows_raise idle _ _⟩
        | false =>
          rw [call_function fits shallow given, inCall_apply _ _ idle] at ended
          obtain ⟨result, ran, _⟩ := Option.map_eq_some_iff.mp ended
          have entered : Idle (enterCall m (m.definition f) args) := idle
          obtain ⟨outcome, after, derived, shown⟩ := sound _ _ _ entered ran
          obtain ⟨final, finished, shown⟩ := inCall_shows idle ran shown
          rw [← inCall_apply _ _ idle, finished] at ended
          cases ended
          exact ⟨_, _, .function fits shallow given derived, shown⟩
      · cases (call_overflow fits deep).symm.trans ended
        exact ⟨_, _, .overflow fits deep, shows_raise idle _ _⟩
    · cases (call_arity fits).symm.trans ended
      exact ⟨_, _, .arity fits, shows_raise idle _ _⟩
  | _ =>
    cases ended
    exact ⟨_, _, .notCallable (by simp) (by simp), shows_raise idle _ _⟩

theorem onCondition_cases {construct : Conditional} {position : Position} {yes no : Eval Value} {value : Value}
    {result : Except RuntimeError Value × Machine}
    (ended : onCondition construct position yes no value m = some result) :
    (value = .bool true ∧ yes m = some result) ∨ (value = .bool false ∧ no m = some result) ∨
    ((∀ b, value ≠ .bool b) ∧ result = (.error (m.error position (.badCondition construct value)), m)) := by
  rcases value with _ | (_ | _) | _ | _ | _ | _
  case bool.true => exact Or.inl ⟨rfl, ended⟩
  case bool.false => exact Or.inr (Or.inl ⟨rfl, ended⟩)
  all_goals exact Or.inr (Or.inr ⟨by simp, (Option.some.inj ended).symm⟩)

section Step
variable {fuel : Nat} (sound : ∀ node, Derives (eval fuel node) ShowsValue (Evaluates · node))
include sound

private theorem statements_derive (statements : ∀ last nodes,
      Derives (evalStatements fuel last nodes) ShowsValue (EvaluatesAll · last nodes))
    (last : Value) (nodes : List Node) :
    Derives (evalStatements (fuel + 1) last nodes) ShowsValue (EvaluatesAll · last nodes) := by
  intro m result idle ended
  cases nodes with
  | nil =>
    cases ended
    exact ⟨_, _, .nil, .normal idle⟩
  | cons node rest =>
    rw [evalStatements_cons] at ended
    rcases checked_cases (sound node m · idle) ended with ⟨v, mid, first, idle, ended⟩ | ⟨reason, after, first, breaks⟩
    · obtain ⟨outcome, after, others, shown⟩ := statements v rest mid result idle ended
      exact ⟨_, _, .cons first others, shown⟩
    · exact ⟨_, _, .stop first, .abrupt (breaks _ fun _ => trivial)⟩

private theorem arguments_derive
    (arguments : ∀ nodes, Derives (evalArguments fuel nodes) ShowsList (EvaluatesEach · nodes))
    (nodes : List Node) : Derives (evalArguments (fuel + 1) nodes) ShowsList (EvaluatesEach · nodes) := by
  intro m result idle ended
  cases nodes with
  | nil =>
    cases ended
    exact ⟨_, _, .nil, .normal idle⟩
  | cons node rest =>
    rw [evalArguments_cons] at ended
    rcases checked_cases (sound node m · idle) ended with ⟨v, mid, first, idle, ended⟩ | ⟨reason, after, first, breaks⟩
    · rw [bind_apply] at ended
      cases ran : evalArguments fuel rest mid with
      | none => simp [ran] at ended
      | some reached =>
        rw [ran] at ended
        obtain ⟨outcome, after, others, shown⟩ := arguments rest mid reached idle ran
        cases shown with
        | normal idle =>
          cases ended
          exact ⟨_, _, .cons first others, .normal idle⟩
        | abrupt breaks =>
          cases breaks with
          | ret idle none =>
            subst none
            cases ended
            exact ⟨_, _, .later first others, .abrupt (.ret idle rfl)⟩
          | error idle =>
            cases ended
            exact ⟨_, _, .later first others, .abrupt (.error idle)⟩
    · exact ⟨_, _, .stop first, .abrupt (breaks _ fun _ => rfl)⟩

private theorem loop_derives (position : Position) (test action : Node)
    (loop : Derives (evalLoop fuel test action) ShowsValue (Evaluates · (.loop position test action))) :
    Derives (evalLoop (fuel + 1) test action) ShowsValue (Evaluates · (.loop position test action)) := by
  intro m result idle ended
  rw [evalLoop_eq] at ended
  rcases checked_cases (sound test m · idle) ended with ⟨v, mid, found, idle, ended⟩ | ⟨reason, after, broken, breaks⟩
  · rcases onCondition_cases ended with ⟨rfl, ended⟩ | ⟨rfl, ended⟩ | ⟨bad, rfl⟩
    · rcases checked_cases (sound action mid · idle) ended with
        ⟨_, next, turn, idle, ended⟩ | ⟨reason, after, turn, breaks⟩
      · obtain ⟨outcome, after, again, shown⟩ := loop next result idle ended
        exact ⟨_, _, .loopAgain found turn again, shown⟩
      · exact ⟨_, _, .loopBreak found turn, .abrupt (breaks _ fun _ => trivial)⟩
    · cases ended
      exact ⟨_, _, .loopDone found, .normal idle⟩
    · exact ⟨_, _, .loopBad found bad, shows_raise idle _ _⟩
  · exact ⟨_, _, .loopAbrupt broken, .abrupt (breaks _ fun _ => trivial)⟩

private theorem branch_derives (position : Position) (test action otherwise : Node) :
    Derives (eval (fuel + 1) (.branch position test action otherwise)) ShowsValue
      (Evaluates · (.branch position test action otherwise)) := by
  intro m result idle ended
  rw [eval_branch] at ended
  rcases checked_cases (sound test m · idle) ended with ⟨v, mid, found, idle, ended⟩ | ⟨reason, after, broken, breaks⟩
  · rcases onCondition_cases ended with ⟨rfl, ended⟩ | ⟨rfl, ended⟩ | ⟨bad, rfl⟩
    · obtain ⟨outcome, after, taken, shown⟩ := sound action mid result idle ended
      exact ⟨_, _, .branchThen found taken, shown⟩
    · cases given : otherwise.isAbsent with
      | true =>
        rw [given] at ended
        cases ended
        exact ⟨_, _, .branchNone found given, .normal idle⟩
      | false =>
        rw [given] at ended
        obtain ⟨outcome, after, taken, shown⟩ := sound otherwise mid result idle ended
        exact ⟨_, _, .branchElse found given taken, shown⟩
    · exact ⟨_, _, .branchBad found bad, shows_raise idle _ _⟩
  · exact ⟨_, _, .branchAbrupt broken, .abrupt (breaks _ fun _ => trivial)⟩

private theorem application_derives
    (arguments : ∀ nodes, Derives (evalArguments fuel nodes) ShowsList (EvaluatesEach · nodes))
    (position : Position) (function : Node) (nodes : List Node) :
    Derives (eval (fuel + 1) (.call position function nodes)) ShowsValue
      (Evaluates · (.call position function nodes)) := by
  intro m result idle ended
  rw [eval_call] at ended
  rcases checked_cases (sound function m · idle) ended with
    ⟨callee, mid, first, idle, ended⟩ | ⟨reason, after, first, breaks⟩
  · rw [bind_apply] at ended
    cases ran : evalArguments fuel nodes mid with
    | none => simp [ran] at ended
    | some reached =>
      rw [ran] at ended
      obtain ⟨outcome, ready, given, shown⟩ := arguments nodes mid reached idle ran
      cases shown with
      | normal idle =>
        obtain ⟨outcome, after, applied, shown⟩ := call_derives sound position callee _ ready result idle ended
        exact ⟨_, _, .call first given applied, shown⟩
      | abrupt breaks =>
        refine ⟨_, _, .callArgumentAbrupt first given, .abrupt ?_⟩
        cases breaks with
        | ret idle none =>
          subst none
          cases ended
          exact .ret idle trivial
        | error idle =>
          cases ended
          exact .error idle
  · exact ⟨_, _, .callAbrupt first, .abrupt (breaks _ fun _ => trivial)⟩

end Step

/-- One unit of fuel after the other, each construct from its parts. -/
theorem eval_derives (fuel : Nat) :
    (∀ node, Derives (eval fuel node) ShowsValue (Evaluates · node)) ∧
    (∀ last nodes, Derives (evalStatements fuel last nodes) ShowsValue (EvaluatesAll · last nodes)) ∧
    (∀ nodes, Derives (evalArguments fuel nodes) ShowsList (EvaluatesEach · nodes)) ∧
    (∀ position test action,
      Derives (evalLoop fuel test action) ShowsValue (Evaluates · (.loop position test action))) := by
  induction fuel with
  | zero => refine ⟨?_, ?_, ?_, ?_⟩ <;> intros <;> intro m result idle ended <;> cases ended
  | succ fuel ih =>
    obtain ⟨sound, statements, arguments, loop⟩ := ih
    refine ⟨fun node => ?_, statements_derive sound statements, arguments_derive sound arguments,
      fun position test action => loop_derives sound position test action (loop position test action)⟩
    intro m result idle ended
    cases node with
    | absent =>
      cases ended
      exact ⟨_, _, .absent, shows_raise idle _ _⟩
    | unknown position =>
      cases ended
      exact ⟨_, _, .unknown, shows_raise idle _ _⟩
    | const position value =>
      cases ended
      exact ⟨_, _, .const, .normal idle⟩
    | member position base name =>
      cases ended
      exact ⟨_, _, .member, shows_raise idle _ _⟩
    | get position name =>
      simp only [eval, bind_apply, get_apply] at ended
      cases found : m.lookup name with
      | none =>
        rw [found] at ended
        cases ended
        exact ⟨_, _, .getUnknown found, shows_raise idle _ _⟩
      | some value =>
        rw [found] at ended
        cases ended
        exact ⟨_, _, .get found, .normal idle⟩
    | set position name value =>
      rw [eval_set] at ended
      rcases checked_cases (sound value m · idle) ended with ⟨v, mid, found, idle, ended⟩ | ⟨reason, after, found, breaks⟩
      · cases ended
        exact ⟨_, _, .set found, .normal (assign_idle idle _ _)⟩
      · exact ⟨_, _, .setAbrupt found, .abrupt (breaks _ fun _ => trivial)⟩
    | ret position value =>
      rw [eval_ret] at ended
      rcases checked_cases (sound value m · idle) ended with ⟨v, mid, found, idle, ended⟩ | ⟨reason, after, found, breaks⟩
      · cases ended
        exact ⟨_, _, .ret found, .abrupt (.ret idle trivial)⟩
      · exact ⟨_, _, .retAbrupt found, .abrupt (breaks _ fun _ => trivial)⟩
    | block position nodes =>
      rw [eval, inFrame_apply] at ended
      obtain ⟨result, ran, _⟩ := Option.map_eq_some_iff.mp ended
      have entered : Idle (enterBlock m) := idle
      obtain ⟨outcome, after, derived, shown⟩ := statements .empty nodes _ _ entered ran
      obtain ⟨final, finished, shown⟩ := inFrame_shows ran shown
      rw [← inFrame_apply, finished] at ended
      cases ended
      exact ⟨_, _, .block derived, shown⟩
    | loop position test action => exact loop position test action m result idle ended
    | branch position test action otherwise =>
      exact branch_derives sound position test action otherwise m result idle ended
    | call position function nodes =>
      exact application_derives sound arguments position function nodes m result idle ended

end Derives

/-- A return on record shows that return and nothing else. -/
theorem shows_returned {outcome : Outcome Value} {reached after : Machine} {v w : Value} (idle : Idle after)
    (shown : ShowsValue outcome reached (.ok w, { after with returned := some v })) :
    outcome = .abrupt (.ret v) ∧ reached = after := by
  generalize recorded : { after with returned := some v } = final at shown
  rcases shown with settled | ⟨settled, _⟩
  · subst recorded
    cases settled
  · have same := congrArg Machine.returned recorded
    have cleared := congrArg settle recorded
    rw [settle_returned idle, settle_returned settled] at cleared
    cases same
    exact ⟨rfl, cleared.symm⟩

private theorem shows_normal {outcome : Outcome Value} {reached after : Machine} {v : Value} (idle : Idle after)
    (shown : ShowsValue outcome reached (.ok v, after)) : outcome = .normal v ∧ reached = after := by
  rcases shown with _ | ⟨_, _⟩
  · exact ⟨rfl, rfl⟩
  · cases idle

/-- Evaluation implements structured return. It ends with an error exactly if that is the outcome, with
a return on record exactly if the outcome is that return, and else with the value of the outcome; in each
case the machine, apart from that record, is the one of the rules. -/
theorem eval_iff_evaluates (node : Node) (m after : Machine) (idle : m.returned = none) :
    (∀ e, (∃ fuel, eval fuel node m = some (.error e, after)) ↔ Evaluates m node (.abrupt (.error e)) after) ∧
    (∀ v, (after.returned = none ∧ ∃ fuel w, eval fuel node m = some (.ok w, { after with returned := some v })) ↔
      Evaluates m node (.abrupt (.ret v)) after) ∧
    (∀ v, (after.returned = none ∧ ∃ fuel, eval fuel node m = some (.ok v, after)) ↔
      Evaluates m node (.normal v) after) := by
  refine ⟨fun e => ⟨?_, ?_⟩, fun v => ⟨?_, ?_⟩, fun v => ⟨?_, ?_⟩⟩
  · rintro ⟨fuel, ended⟩
    obtain ⟨outcome, reached, derived, shown⟩ := (eval_derives fuel).1 node m _ idle ended
    rcases shown with _ | ⟨_ | _⟩
    exact derived
  · intro derived
    obtain ⟨fuel, result, ended, shown⟩ := derived.ends idle
    rcases shown with _ | ⟨_ | _⟩
    exact ⟨fuel, ended⟩
  · rintro ⟨settled, fuel, w, ended⟩
    obtain ⟨outcome, reached, derived, shown⟩ := (eval_derives fuel).1 node m _ idle ended
    obtain ⟨rfl, rfl⟩ := shows_returned settled shown
    exact derived
  · intro derived
    obtain ⟨fuel, result, ended, shown⟩ := derived.ends idle
    rcases shown with _ | ⟨settled | _⟩
    exact ⟨settled, fuel, _, ended⟩
  · rintro ⟨settled, fuel, ended⟩
    obtain ⟨outcome, reached, derived, shown⟩ := (eval_derives fuel).1 node m _ idle ended
    obtain ⟨rfl, rfl⟩ := shows_normal settled shown
    exact derived
  · intro derived
    obtain ⟨fuel, result, ended, shown⟩ := derived.ends idle
    rcases shown with settled | _
    exact ⟨settled, fuel, ended⟩

/-- A call of `print` with two arguments. The first prints, returns, and would print again. -/
def returningArgument : Node :=
  .call {} (.get {} "print")
    [.block {} [.call {} (.get {} "print") [.const {} (.string "once")], .ret {} (.const {} (.bool true)),
      .call {} (.get {} "print") [.const {} (.string "never")]],
    .call {} (.get {} "print") [.const {} (.string "neither")]]

theorem returningArgument_prints_once :
    Evaluates (.new 0 {} "") returningArgument (.abrupt (.ret (.bool true))) (.new 0 ⟨none, #["once\n"]⟩ "") :=
  ((eval_iff_evaluates returningArgument _ _ rfl).2.1 _).mp ⟨rfl, 9, _, rfl⟩

end Scriptlet.Proofs.StructuredReturn
