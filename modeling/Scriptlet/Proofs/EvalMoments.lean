import Mathlib.Logic.Relation
import Scriptlet.Proofs.EvalChange

/-! The moments of a run. Evaluation of a node starts the evaluation of others, each on the machine that the parts
before it have left, and these start others again. What holds at the first moment and goes over from each moment
to those it starts holds throughout the run, whether or not the run ever ends. -/

namespace Scriptlet.Proofs.EvalMoments
open Eval EvalFuel StructuredReturn EvalChange

/-- The evaluation of a node, about to start on a machine. -/
structure Moment where
  machine : Machine
  node : Node

/-- Of nodes that are evaluated one after the other, one whose turn comes: those before it have ended, and none of
them has returned. -/
inductive Among : Machine → List Node → Moment → Prop where
  | first {m node rest} : Among m (node :: rest) ⟨m, node⟩
  | later {m node rest fuel value mid now} (ran : eval fuel node m = some (.ok value, mid)) (idle : Idle mid)
      (among : Among mid rest now) : Among m (node :: rest) now

/-- The parts of a node whose evaluation it starts, with the machines on which it does. A loop starts itself again
after each turn, and a call of a function starts the function's body. -/
inductive Starts : Moment → Moment → Prop where
  | assigned {m p name value} : Starts ⟨m, .set p name value⟩ ⟨m, value⟩
  | returned {m p value} : Starts ⟨m, .ret p value⟩ ⟨m, value⟩
  | statement {m p nodes next} (reached : Among (enterBlock m) nodes next) : Starts ⟨m, .block p nodes⟩ next
  | branchTest {m p test action otherwise} : Starts ⟨m, .branch p test action otherwise⟩ ⟨m, test⟩
  | branchThen {m p test action otherwise fuel mid} (holds : eval fuel test m = some (.ok (.bool true), mid))
      (idle : Idle mid) : Starts ⟨m, .branch p test action otherwise⟩ ⟨mid, action⟩
  | branchElse {m p test action otherwise fuel mid} (fails : eval fuel test m = some (.ok (.bool false), mid))
      (idle : Idle mid) (given : otherwise.isAbsent = false) :
      Starts ⟨m, .branch p test action otherwise⟩ ⟨mid, otherwise⟩
  | loopTest {m p test action} : Starts ⟨m, .loop p test action⟩ ⟨m, test⟩
  | loopTurn {m p test action fuel mid} (holds : eval fuel test m = some (.ok (.bool true), mid)) (idle : Idle mid) :
      Starts ⟨m, .loop p test action⟩ ⟨mid, action⟩
  | loopAgain {m p test action fuel mid more v next} (holds : eval fuel test m = some (.ok (.bool true), mid))
      (idle : Idle mid) (turn : eval more action mid = some (.ok v, next)) (still : Idle next) :
      Starts ⟨m, .loop p test action⟩ ⟨next, .loop p test action⟩
  | callee {m p function arguments} : Starts ⟨m, .call p function arguments⟩ ⟨m, function⟩
  | argument {m p function arguments fuel callee mid next}
      (first : eval fuel function m = some (.ok callee, mid)) (idle : Idle mid) (reached : Among mid arguments next) :
      Starts ⟨m, .call p function arguments⟩ next
  | body {m p function arguments fuel f mid more args ready}
      (first : eval fuel function m = some (.ok (.function f), mid)) (idle : Idle mid)
      (given : evalArguments more arguments mid = some (.ok (some args), ready))
      (accepted : refusal? ready f args = none) :
      Starts ⟨m, .call p function arguments⟩
        ⟨beginCall ready (ready.definition f) args, (ready.definition f).body⟩

def Reaches : Moment → Moment → Prop := Relation.ReflTransGen Starts

/-- A property that goes over to every part that is started holds at every moment. -/
theorem Reaches.induct {holds : Moment → Prop} (step : ∀ {now next}, Starts now next → holds now → holds next)
    {first now : Moment} (reached : Reaches first now) (start : holds first) : holds now := by
  induction reached with
  | refl => exact start
  | tail _ starts ih => exact step starts ih

/-- How the machine on which a part starts comes from the one on which the whole started. -/
inductive Handed (changes : Machine → Machine → Prop) : Moment → Machine → Prop where
  | part {m node next} (plain : ∀ p nodes, node ≠ .block p nodes) (changed : changes m next) :
      Handed changes ⟨m, node⟩ next
  | block {m p nodes next} (changed : changes (enterBlock m) next) : Handed changes ⟨m, .block p nodes⟩ next
  | call {m p function arguments ready d args} (changed : changes m ready) :
      Handed changes ⟨m, .call p function arguments⟩ (beginCall ready d args)

theorem Among.changed {changes : Machine → Machine → Prop} (respected : Respected changes) {m : Machine}
    {nodes : List Node} {next : Moment} (among : Among m nodes next) : changes m next.machine := by
  induction among with
  | first => exact respected.refl _
  | later ran _ _ ih => exact respected.trans (eval_within respected _ _ _ _ _ ran) ih

theorem Starts.handed {changes : Machine → Machine → Prop} (respected : Respected changes) {now next : Moment}
    (starts : Starts now next) : Handed changes now next.machine := by
  have ends {fuel node m outcome after} (ran : eval fuel node m = some (outcome, after)) : changes m after :=
    eval_within respected fuel node m outcome after ran
  cases starts with
  | statement reached => exact .block (reached.changed respected)
  | branchThen holds _ => exact .part nofun (ends holds)
  | branchElse fails _ _ => exact .part nofun (ends fails)
  | loopTurn holds _ => exact .part nofun (ends holds)
  | loopAgain holds _ turn _ => exact .part nofun (respected.trans (ends holds) (ends turn))
  | argument first _ reached => exact .part nofun (respected.trans (ends first) (reached.changed respected))
  | body first _ given _ =>
    exact .call (respected.trans (ends first) (evalArguments_within respected _ _ _ _ _ given))
  | _ => exact .part nofun (respected.refl _)

section Halting
variable {α β : Type} {m : Machine}

/-- Enough fuel lets the computation end. -/
def Halts (run : Nat → Eval α) (m : Machine) : Prop :=
  ∃ enough, ∀ fuel, enough ≤ fuel → ∃ result, run fuel m = some result

/-- The evaluation that is about to start ends. -/
def Ends (now : Moment) : Prop := Halts (eval · now.node) now.machine

private theorem halts_of_always {run : Nat → Eval α} (always : ∀ fuel, ∃ result, run fuel m = some result) :
    Halts run m :=
  ⟨0, fun fuel _ => always fuel⟩

theorem Halts.of_succ {run : Nat → Eval α} (halts : Halts (fun fuel => run (fuel + 1)) m) : Halts run m := by
  obtain ⟨enough, halts⟩ := halts
  refine ⟨enough + 1, fun fuel le => ?_⟩
  obtain ⟨fuel, rfl⟩ := Nat.exists_eq_add_of_le' (Nat.le_of_add_left_le le)
  exact halts fuel (Nat.le_of_add_le_add_right le)

theorem Halts.map {run : Nat → Eval α} {other : Nat → Eval β} {start : Machine} (halts : Halts run start)
    {change : Except RuntimeError α × Machine → Except RuntimeError β × Machine}
    (same : ∀ fuel, other fuel m = (run fuel start).map change) : Halts other m := by
  obtain ⟨enough, halts⟩ := halts
  refine ⟨enough, fun fuel le => ?_⟩
  obtain ⟨result, ran⟩ := halts fuel le
  exact ⟨change result, by rw [same, ran, Option.map_some]⟩

/-- The rest may depend on what the first part gives, which is the same for all fuel that is enough. -/
theorem Halts.bind {first : Nat → Eval α} {next : Nat → α → Eval β} (grows : Grows first) (halts : Halts first m)
    (rest : ∀ fuel value mid, first fuel m = some (.ok value, mid) → Halts (next · value) mid) :
    Halts (fun fuel => first fuel >>= next fuel) m := by
  obtain ⟨enough, halts⟩ := halts
  obtain ⟨⟨outcome, mid⟩, ended⟩ := halts enough (Nat.le_refl _)
  have later {fuel} (le : enough ≤ fuel) : first fuel m = some (outcome, mid) := grows le m _ ended
  cases outcome with
  | error e =>
    refine ⟨enough, fun fuel le => ⟨(.error e, mid), ?_⟩⟩
    simp only [bind_apply, later le]
  | ok value =>
    obtain ⟨more, rest⟩ := rest enough value mid ended
    refine ⟨max enough more, fun fuel le => ?_⟩
    simp only [bind_apply, later (Nat.le_trans (Nat.le_max_left ..) le)]
    exact rest fuel (Nat.le_trans (Nat.le_max_right ..) le)

theorem Halts.checked {first : Nat → Eval α} {stop : α → β} {next : Nat → α → Eval β} (grows : Grows first)
    (halts : Halts first m)
    (rest : ∀ fuel value mid, first fuel m = some (.ok value, mid) → Idle mid → Halts (next · value) mid) :
    Halts (fun fuel => checked (first fuel) stop (next fuel)) m := by
  refine halts.bind grows fun fuel value mid ran => ?_
  simp only [Halts, bind_apply, isReturning_apply]
  cases returned : mid.returned with
  | some _ => exact ⟨0, fun fuel _ => ⟨_, rfl⟩⟩
  | none => exact rest fuel value mid ran returned

private theorem halts_onCondition {yes no : Nat → Eval Value} {construct : Conditional} {position : Position}
    {value : Value}
    (holds : value = .bool true → Halts yes m) (fails : value = .bool false → Halts no m) :
    Halts (fun fuel => onCondition construct position (yes fuel) (no fuel) value) m := by
  rcases value with _ | (_ | _) | _ | _ | _ | _
  · exact halts_of_always fun _ => ⟨_, rfl⟩
  · exact fails rfl
  · exact holds rfl
  all_goals exact halts_of_always fun _ => ⟨_, rfl⟩

private theorem halts_evalStatements {nodes : List Node} (parts : ∀ next, Among m nodes next → Ends next)
    (last : Value) :
    Halts (evalStatements · last nodes) m := by
  induction nodes generalizing m last with
  | nil => exact .of_succ (halts_of_always fun _ => ⟨_, rfl⟩)
  | cons node rest ih =>
    refine .of_succ ?_
    simp only [evalStatements_cons]
    refine .checked (eval_grows node) (parts _ .first) fun fuel value mid ran idle => ?_
    exact ih (fun next among => parts next (.later ran idle among)) value

private theorem halts_evalArguments {nodes : List Node} (parts : ∀ next, Among m nodes next → Ends next) :
    Halts (evalArguments · nodes) m := by
  induction nodes generalizing m with
  | nil => exact .of_succ (halts_of_always fun _ => ⟨_, rfl⟩)
  | cons node rest ih =>
    refine .of_succ ?_
    simp only [evalArguments_cons]
    refine .checked (eval_grows node) (parts _ .first) fun fuel value mid ran idle => ?_
    refine .bind (evalArguments_grows rest) (ih fun next among => parts next (.later ran idle among)) ?_
    exact fun _ _ _ _ => halts_of_always fun _ => ⟨_, rfl⟩

private theorem halts_call {position : Position} {callee : Value} {args : List Value}
    (body : ∀ f, callee = .function f → refusal? m f args = none →
      Ends ⟨beginCall m (m.definition f) args, (m.definition f).body⟩) :
    Halts (fun fuel => call position callee args (eval fuel)) m := by
  cases callee with
  | native name =>
    cases known : Native.ofName? name with
    | none => exact halts_of_always fun _ => ⟨_, call_unknown known⟩
    | some f => exact halts_of_always fun _ => ⟨_, call_known known ..⟩
  | function f =>
    cases refused : refusal? m f args with
    | some fault =>
      refine halts_of_always fun fuel => ⟨(.error (m.error position fault), m), ?_⟩
      rw [call, callFunction_eq, refused]
    | none =>
      have entered (fuel : Nat) : call position (.function f) args (eval fuel) m =
          inCall (m.definition f) args (eval fuel (m.definition f).body) m := by
        rw [call, callFunction_eq, refused]
      exact (body f rfl refused).map fun fuel => (entered fuel).trans (inCall_eq ..)
  | _ => exact halts_of_always fun _ => ⟨_, rfl⟩

/-- An evaluation ends if all those that it starts end. -/
theorem ends_of_parts {now : Moment} (parts : ∀ next, Starts now next → Ends next) : Ends now := by
  obtain ⟨m, node⟩ := now
  refine .of_succ ?_
  cases node with
  | set p name value =>
    simp only [eval_set]
    exact .checked (eval_grows value) (parts _ .assigned) fun _ _ _ _ _ => halts_of_always fun _ => ⟨_, rfl⟩
  | ret p value =>
    simp only [eval_ret]
    exact .checked (eval_grows value) (parts _ .returned) fun _ _ _ _ _ => halts_of_always fun _ => ⟨_, rfl⟩
  | block p nodes =>
    exact (halts_evalStatements (fun next among => parts next (.statement among)) .empty).map fun fuel =>
      inFrame_apply ..
  | branch p test action otherwise =>
    simp only [eval_branch]
    refine .checked (eval_grows test) (parts _ .branchTest) fun fuel value mid ran idle => ?_
    refine halts_onCondition (fun holds => ?_) fun fails => ?_
    · subst holds
      exact parts _ (.branchThen ran idle)
    · subst fails
      cases given : otherwise.isAbsent with
      | true => exact halts_of_always fun _ => ⟨_, rfl⟩
      | false => exact parts _ (.branchElse ran idle given)
  | loop p test action =>
    change Halts (fun fuel => evalLoop fuel test action) m
    refine .of_succ ?_
    simp only [evalLoop_eq]
    refine .checked (eval_grows test) (parts _ .loopTest) fun fuel value mid ran idle => ?_
    refine halts_onCondition (fun holds => ?_) fun _ => halts_of_always fun _ => ⟨_, rfl⟩
    subst holds
    refine .checked (eval_grows action) (parts _ (.loopTurn ran idle)) fun more v next turn still => ?_
    obtain ⟨enough, ends⟩ := parts _ (.loopAgain ran idle turn still)
    exact ⟨enough, fun fuel le => ends (fuel + 1) (Nat.le_succ_of_le le)⟩
  | call p function arguments =>
    simp only [eval_call]
    refine .checked (eval_grows function) (parts _ .callee) fun fuel callee mid first idle => ?_
    refine .bind (evalArguments_grows arguments)
      (halts_evalArguments fun next reached => parts next (.argument first idle reached)) ?_
    intro more args ready given
    cases args with
    | none => exact halts_of_always fun _ => ⟨_, rfl⟩
    | some args =>
      refine halts_call fun f isFunction accepted => ?_
      subst isFunction
      exact parts _ (.body first idle given accepted)
  | get p name => exact halts_of_always fun fuel => ⟨_, eval_get fuel p name m⟩
  | _ => exact halts_of_always fun _ => ⟨_, rfl⟩

end Halting

end Scriptlet.Proofs.EvalMoments
