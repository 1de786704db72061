import Mathlib.Data.List.Forall2
import Scriptlet.Proofs.EvalChange

/-! Two evaluations side by side. Neither the machines nor the programs need be equal: nodes may stand at other
places, and functions may be other functions, as long as they stand for each other. It is enough that every single
operation keeps the machines together; then what the one evaluation gives is matched by what the other gives. After
some errors of the first nothing is asked of the second. -/

namespace Scriptlet.Proofs.EvalTwins
open Eval EvalFuel StructuredReturn EvalChange

section Correspondence
variable {place : Position → Position → Prop} {ref : FunctionRef → FunctionRef → Prop}

/-- The same value, or functions that stand for each other. -/
inductive SameValue (ref : FunctionRef → FunctionRef → Prop) : Value → Value → Prop where
  | plain {v} (other : ∀ f, v ≠ .function f) : SameValue ref v v
  | function {f g} (same : ref f g) : SameValue ref (.function f) (.function g)

abbrev SameValues (ref : FunctionRef → FunctionRef → Prop) : List Value → List Value → Prop :=
  List.Forall₂ (SameValue ref)

/-- Trees of one form. What a member is taken of is never evaluated, so nothing is asked of it. -/
inductive SameNode (place : Position → Position → Prop) (ref : FunctionRef → FunctionRef → Prop) :
    Node → Node → Prop where
  | absent : SameNode place ref .absent .absent
  | unknown {p q} (here : place p q) : SameNode place ref (.unknown p) (.unknown q)
  | block {p q nodes others} (here : place p q) (statements : List.Forall₂ (SameNode place ref) nodes others) :
      SameNode place ref (.block p nodes) (.block q others)
  | branch {p q test test' action action' otherwise otherwise'} (here : place p q)
      (condition : SameNode place ref test test') (holds : SameNode place ref action action')
      (fails : SameNode place ref otherwise otherwise') :
      SameNode place ref (.branch p test action otherwise) (.branch q test' action' otherwise')
  | loop {p q test test' action action'} (here : place p q) (condition : SameNode place ref test test')
      (holds : SameNode place ref action action') :
      SameNode place ref (.loop p test action) (.loop q test' action')
  | ret {p q value value'} (here : place p q) (given : SameNode place ref value value') :
      SameNode place ref (.ret p value) (.ret q value')
  | set {p q name value value'} (here : place p q) (given : SameNode place ref value value') :
      SameNode place ref (.set p name value) (.set q name value')
  | get {p q} (here : place p q) (name : String) : SameNode place ref (.get p name) (.get q name)
  | const {p q v w} (here : place p q) (same : SameValue ref v w) : SameNode place ref (.const p v) (.const q w)
  | call {p q function function' arguments arguments'} (here : place p q)
      (callee : SameNode place ref function function')
      (given : List.Forall₂ (SameNode place ref) arguments arguments') :
      SameNode place ref (.call p function arguments) (.call q function' arguments')
  | member {p q} (here : place p q) (base base' : Node) (name : String) :
      SameNode place ref (.member p base name) (.member q base' name)

/-- Faults that name the same thing, up to functions that stand for each other. -/
inductive SameFault (ref : FunctionRef → FunctionRef → Prop) : RuntimeFault → RuntimeFault → Prop where
  | same (fault : RuntimeFault) : SameFault ref fault fault
  | condition {v w} (construct : Conditional) (given : SameValue ref v w) :
      SameFault ref (.badCondition construct v) (.badCondition construct w)
  | callee {v w} (given : SameValue ref v w) : SameFault ref (.notCallable v) (.notCallable w)
  | argument {v w} (f : String) (number : Nat) (expected : Value.Kind) (given : SameValue ref v w) :
      SameFault ref (.native (.argument f number expected v)) (.native (.argument f number expected w))

/-- Both computations give something, or both fail. -/
inductive SameResult {ε α β : Type} (fails : ε → ε → Prop) (gives : α → β → Prop) : Except ε α → Except ε β → Prop where
  | ok {v w} (same : gives v w) : SameResult fails gives (.ok v) (.ok w)
  | error {e f} (same : fails e f) : SameResult fails gives (.error e) (.error f)

theorem sameResult_refl {ε α : Type} {fails : ε → ε → Prop} {gives : α → α → Prop} (errors : ∀ e, fails e e)
    (values : ∀ v, gives v v) (outcome : Except ε α) : SameResult fails gives outcome outcome := by
  cases outcome with
  | ok v => exact .ok (values v)
  | error e => exact .error (errors e)

theorem optionRel_refl {α : Type} {rel : α → α → Prop} (refl : ∀ v, rel v v) (given : Option α) :
    Option.Rel rel given given := by
  cases given with
  | none => exact .none
  | some v => exact .some (refl v)

theorem SameNode.isAbsent {node other : Node} (same : SameNode place ref node other) :
    node.isAbsent = other.isAbsent := by
  cases same <;> rfl

theorem SameNode.position {node other : Node} (nowhere : place {} {}) (same : SameNode place ref node other) :
    place node.position other.position := by
  cases same <;> first | exact nowhere | assumption

theorem sameValue_eq {v w : Value} (same : SameValue Eq v w) : v = w := by
  cases same with
  | plain _ => rfl
  | function same => rw [same]

theorem sameValue_refl (refl : ∀ f, ref f f) (v : Value) : SameValue ref v v := by
  cases v with
  | function f => exact .function (refl f)
  | _ => exact .plain (by simp)

theorem sameValues_eq {args others : List Value} (same : SameValues Eq args others) : args = others := by
  have equal := same.imp fun v w => sameValue_eq
  rwa [List.forall₂_eq_eq_eq] at equal

theorem sameFault_eq {fault other : RuntimeFault} (same : SameFault Eq fault other) : fault = other := by
  cases same with
  | same => rfl
  | condition construct given => rw [sameValue_eq given]
  | callee given => rw [sameValue_eq given]
  | argument f number expected given => rw [sameValue_eq given]

mutual

theorem sameNode_refl (places : ∀ p, place p p) (refs : ∀ f, ref f f) (node : Node) : SameNode place ref node node := by
  match node with
  | .absent => exact .absent
  | .unknown p => exact .unknown (places p)
  | .block p nodes => exact .block (places p) (sameNodes_refl places refs nodes)
  | .branch p test action otherwise =>
    exact .branch (places p) (sameNode_refl places refs test) (sameNode_refl places refs action)
      (sameNode_refl places refs otherwise)
  | .loop p test action => exact .loop (places p) (sameNode_refl places refs test) (sameNode_refl places refs action)
  | .ret p value => exact .ret (places p) (sameNode_refl places refs value)
  | .set p name value => exact .set (places p) (sameNode_refl places refs value)
  | .get p name => exact .get (places p) name
  | .const p v => exact .const (places p) (sameValue_refl refs v)
  | .call p function arguments =>
    exact .call (places p) (sameNode_refl places refs function) (sameNodes_refl places refs arguments)
  | .member p base name => exact .member (places p) base base name

theorem sameNodes_refl (places : ∀ p, place p p) (refs : ∀ f, ref f f) (nodes : List Node) :
    List.Forall₂ (SameNode place ref) nodes nodes := by
  match nodes with
  | [] => exact .nil
  | node :: rest => exact .cons (sameNode_refl places refs node) (sameNodes_refl places refs rest)

end

end Correspondence

/-- The place of a node that is missing, where places are compared by equality. -/
theorem same_nowhere : ({} : Position) = {} := rfl

structure Twins where
  place : Position → Position → Prop
  ref : FunctionRef → FunctionRef → Prop
  related : Machine → Machine → Prop
  alike : RuntimeError → RuntimeError → Prop
  excused : RuntimeError → Prop
  nowhere : place {} {}
  returned : ∀ {m n}, related m n → Option.Rel (SameValue ref) m.returned n.returned
  lookup : ∀ {m n}, related m n → ∀ name, Option.Rel (SameValue ref) (m.lookup name) (n.lookup name)
  body : ∀ {m n f g}, related m n → ref f g → SameNode place ref (m.definition f).body (n.definition g).body
  refusal : ∀ {m n f g args others}, related m n → ref f g → SameValues ref args others →
    refusal? m f args = refusal? n g others ∨
      ∃ fault, refusal? m f args = some fault ∧ ∀ position, excused (m.error position fault)
  error : ∀ {m n p q fault other}, related m n → place p q → SameFault ref fault other →
    alike (m.error p fault) (n.error q other)
  native : ∀ {m n args others}, related m n → SameValues ref args others → ∀ f : Native,
    SameResult (fun fault other => SameFault ref (.native fault) (.native other)) (SameValue ref)
      (f.apply args m.sink).1 (f.apply others n.sink).1 ∧
    related { m with sink := (f.apply args m.sink).2 } { n with sink := (f.apply others n.sink).2 }
  assign : ∀ {m n v w}, related m n → SameValue ref v w → ∀ name, related (m.assign name v) (n.assign name w)
  record : ∀ {m n v w}, related m n → SameValue ref v w →
    related { m with returned := some v } { n with returned := some w }
  enterBlock : ∀ {m n}, related m n → related (enterBlock m) (enterBlock n)
  leaveBlock : ∀ {m n}, related m n → related (leaveBlock m) (leaveBlock n)
  beginCall : ∀ {m n f g args others}, related m n → ref f g → SameValues ref args others →
    related (beginCall m (m.definition f) args) (beginCall n (n.definition g) others)
  endCall : ∀ {m n after final}, related m n → related after final → related (endCall m after) (endCall n final)

namespace Twins

variable {α β γ δ : Type} (t : Twins)

inductive Answers (rel : α → β → Prop) :
    Except RuntimeError α × Machine → Option (Except RuntimeError β × Machine) → Prop where
  | value {v w after final} (same : rel v w) (together : t.related after final) :
      Answers rel (.ok v, after) (some (.ok w, final))
  | error {e f after final} (alike : t.alike e f) (together : t.related after final) :
      Answers rel (.error e, after) (some (.error f, final))
  | excused {e after reply} (excused : t.excused e) : Answers rel (.error e, after) reply

/-- Where the first computation ends, the second ends with a corresponding value or a like error. -/
def Follows (rel : α → β → Prop) (first : Eval α) (second : Eval β) : Prop :=
  ∀ m n, t.related m n → ∀ result, first m = some result → t.Answers rel result (second n)

abbrev Value : Scriptlet.Value → Scriptlet.Value → Prop := SameValue t.ref

abbrev Node : Scriptlet.Node → Scriptlet.Node → Prop := SameNode t.place t.ref

variable {t} {rel : α → β → Prop} {final : γ → δ → Prop}

private theorem follows_outOfFuel (second : Eval β) : t.Follows rel outOfFuel second := by
  intro m n together result ran
  cases ran

private theorem follows_pure {v : α} {w : β} (same : rel v w) : t.Follows rel (pure v) (pure w) := by
  intro m n together result ran
  cases ran
  exact .value same together

private theorem follows_fail {p q : Position} {fault other : RuntimeFault} (here : t.place p q)
    (same : SameFault t.ref fault other) : t.Follows rel (fail p fault) (fail q other) := by
  intro m n together result ran
  cases ran
  exact .error (t.error together here same) together

private theorem follows_isReturning : t.Follows Eq isReturning isReturning := by
  intro m n together result ran
  cases ran
  refine .value ?_ together
  have returned := t.returned together
  generalize m.returned = value at returned
  generalize n.returned = other at returned
  cases returned <;> rfl

theorem Follows.bind {first : Eval α} {second : Eval β} {next : α → Eval γ} {after : β → Eval δ}
    (part : t.Follows rel first second) (rest : ∀ v w, rel v w → t.Follows final (next v) (after w)) :
    t.Follows final (first >>= next) (second >>= after) := by
  intro m n together result ran
  rw [bind_apply] at ran ⊢
  cases reached : first m with
  | none => simp [reached] at ran
  | some middle =>
    rw [reached] at ran
    have answer := part m n together middle reached
    generalize second n = reply at answer
    cases answer with
    | value same together => exact rest _ _ same _ _ together result ran
    | error alike together =>
      cases ran
      exact .error alike together
    | excused excused =>
      cases ran
      exact .excused excused

theorem Follows.checked {first : Eval α} {second : Eval β} {stop : α → γ} {halt : β → δ} {next : α → Eval γ}
    {after : β → Eval δ} (part : t.Follows rel first second) (stopped : ∀ v w, rel v w → final (stop v) (halt w))
    (rest : ∀ v w, rel v w → t.Follows final (next v) (after w)) :
    t.Follows final (checked first stop next) (checked second halt after) := by
  refine part.bind fun v w same => follows_isReturning.bind fun returning _ alike => ?_
  cases alike
  cases returning with
  | true => exact follows_pure (stopped v w same)
  | false => exact rest v w same

theorem Follows.onCondition {yes no yes' no' : Eval Scriptlet.Value} (holds : t.Follows t.Value yes yes')
    (fails : t.Follows t.Value no no') (construct : Conditional) {p q : Position} (here : t.place p q)
    {v w : Scriptlet.Value} (same : t.Value v w) :
    t.Follows t.Value (onCondition construct p yes no v) (onCondition construct q yes' no' w) := by
  cases same with
  | function same => exact follows_fail here (.condition construct (.function same))
  | plain _ =>
    rcases v with _ | (_ | _) | _ | _ | _ | _
    · exact follows_fail here (.same _)
    · exact fails
    · exact holds
    all_goals exact follows_fail here (.same _)

theorem Follows.inFrame {first second : Eval Scriptlet.Value} (body : t.Follows t.Value first second) :
    t.Follows t.Value (inFrame first) (inFrame second) := by
  intro m n together result ran
  rw [inFrame_apply] at ran ⊢
  obtain ⟨middle, reached, rfl⟩ := Option.map_eq_some_iff.mp ran
  have answer := body _ _ (t.enterBlock together) middle reached
  generalize second (StructuredReturn.enterBlock n) = reply at answer
  cases answer with
  | value same together => exact .value same (t.leaveBlock together)
  | error alike together => exact .error alike (t.leaveBlock together)
  | excused excused => exact .excused excused

/-- What a body has returned is what its call gives. -/
theorem call_value {m n : Machine} (together : t.related m n) :
    t.Value (m.returned.getD .empty) (n.returned.getD .empty) := by
  have returned := t.returned together
  generalize m.returned = value at returned
  generalize n.returned = other at returned
  cases returned with
  | some same => exact same
  | none => exact .plain (by simp)

theorem Follows.callFunction {first second : Scriptlet.Node → Eval Scriptlet.Value}
    (run : ∀ node other, t.Node node other → t.Follows t.Value (first node) (second other)) {p q : Position}
    (here : t.place p q) {f g : FunctionRef} (stands : t.ref f g) {args others : List Scriptlet.Value}
    (given : SameValues t.ref args others) :
    t.Follows t.Value (callFunction p f args first) (callFunction q g others second) := by
  intro m n together result ran
  rw [callFunction_eq] at ran ⊢
  rcases t.refusal together stands given with same | ⟨fault, refused, excused⟩
  · rw [← same]
    cases refused : refusal? m f args with
    | some fault =>
      rw [refused] at ran
      cases ran
      exact .error (t.error together here (.same fault)) together
    | none =>
      rw [refused] at ran
      dsimp only at ran ⊢
      rw [inCall_eq] at ran ⊢
      obtain ⟨middle, reached, rfl⟩ := Option.map_eq_some_iff.mp ran
      have answer := run _ _ (t.body together stands) _ _ (t.beginCall together stands given) middle reached
      generalize second _ (EvalChange.beginCall n _ others) = reply at answer
      cases answer with
      | value _ inside => exact .value (call_value inside) (t.endCall together inside)
      | error alike inside => exact .error alike (t.endCall together inside)
      | excused excused => exact .excused excused
  · rw [refused] at ran
    cases ran
    exact .excused (excused p)

theorem follows_native {p q : Position} (here : t.place p q) (name : String) {args others : List Scriptlet.Value}
    (given : SameValues t.ref args others) :
    t.Follows t.Value (callNative p name args) (callNative q name others) := by
  intro m n together result ran
  rw [callNative_eq] at ran ⊢
  cases known : Native.ofName? name with
  | none =>
    rw [known] at ran
    cases ran
    exact .error (t.error together here (.same _)) together
  | some f =>
    rw [known] at ran
    cases ran
    obtain ⟨same, after⟩ := t.native together given f
    dsimp only
    generalize (f.apply args m.sink).1 = outcome at same
    generalize (f.apply others n.sink).1 = other at same
    cases same with
    | ok same => exact .value same after
    | error same => exact .error (t.error together here same) after

theorem Follows.call {first second : Scriptlet.Node → Eval Scriptlet.Value}
    (run : ∀ node other, t.Node node other → t.Follows t.Value (first node) (second other)) {p q : Position}
    (here : t.place p q) {callee other : Scriptlet.Value} (same : t.Value callee other)
    {args others : List Scriptlet.Value} (given : SameValues t.ref args others) :
    t.Follows t.Value (call p callee args first) (call q other others second) := by
  cases same with
  | function stands => exact .callFunction run here stands given
  | plain isOther =>
    cases callee with
    | native name => exact follows_native here name given
    | function f => exact absurd rfl (isOther f)
    | _ => exact follows_fail here (.same _)

theorem follows_get {p q : Position} (here : t.place p q) (name : String) (fuel : Nat) :
    t.Follows t.Value (eval (fuel + 1) (.get p name)) (eval (fuel + 1) (.get q name)) := by
  intro m n together result ran
  rw [eval_get] at ran ⊢
  cases ran
  have found := t.lookup together name
  generalize m.lookup name = value at found
  generalize n.lookup name = other at found
  cases found with
  | some same => exact .value same together
  | none => exact .error (t.error together here (.same _)) together

theorem sameEmpty : t.Value .empty .empty := .plain (by simp)

/-- All four functions of the evaluator, with the same fuel on both sides. -/
structure Alongside (t : Twins) (fuel : Nat) : Prop where
  node : ∀ node other, t.Node node other → t.Follows t.Value (eval fuel node) (eval fuel other)
  statements : ∀ last last' nodes others, t.Value last last' → List.Forall₂ t.Node nodes others →
    t.Follows t.Value (evalStatements fuel last nodes) (evalStatements fuel last' others)
  arguments : ∀ nodes others, List.Forall₂ t.Node nodes others →
    t.Follows (Option.Rel (SameValues t.ref)) (evalArguments fuel nodes) (evalArguments fuel others)
  loop : ∀ test test' action action', t.Node test test' → t.Node action action' →
    t.Follows t.Value (evalLoop fuel test action) (evalLoop fuel test' action')

section Step
variable {fuel : Nat} (ih : Alongside t fuel)
include ih

theorem node_succ {node other : Scriptlet.Node} (same : t.Node node other) :
    t.Follows t.Value (eval (fuel + 1) node) (eval (fuel + 1) other) := by
  cases same with
  | absent => exact follows_fail t.nowhere (.same _)
  | unknown here => exact follows_fail here (.same _)
  | member here base base' name => exact follows_fail here (.same _)
  | const here same => exact follows_pure same
  | get here name => exact follows_get here name fuel
  | set here given =>
    rw [eval_set, eval_set]
    refine (ih.node _ _ given).checked (fun _ _ _ => sameEmpty) fun v w same => ?_
    intro m n together result ran
    cases ran
    exact .value sameEmpty (t.assign together same _)
  | ret here given =>
    rw [eval_ret, eval_ret]
    refine (ih.node _ _ given).checked (fun _ _ same => same) fun v w same => ?_
    intro m n together result ran
    cases ran
    exact .value same (t.record together same)
  | block here statements => exact (ih.statements .empty .empty _ _ sameEmpty statements).inFrame
  | branch here condition holds fails =>
    rw [eval_branch, eval_branch]
    refine (ih.node _ _ condition).checked (fun _ _ _ => sameEmpty) fun v w same => ?_
    refine (ih.node _ _ holds).onCondition ?_ .branch (condition.position t.nowhere) same
    rw [← fails.isAbsent]
    split
    · exact follows_pure sameEmpty
    · exact ih.node _ _ fails
  | loop here condition holds => exact ih.loop _ _ _ _ condition holds
  | call here callee given =>
    rw [eval_call, eval_call]
    refine (ih.node _ _ callee).checked (fun _ _ _ => sameEmpty) fun v w same => ?_
    refine (ih.arguments _ _ given).bind fun args others listed => ?_
    cases listed with
    | none => exact follows_pure sameEmpty
    | some listed => exact .call ih.node here same listed

private theorem statements_succ {last last' : Scriptlet.Value} {nodes others : List Scriptlet.Node}
    (same : t.Value last last')
    (all : List.Forall₂ t.Node nodes others) :
    t.Follows t.Value (evalStatements (fuel + 1) last nodes) (evalStatements (fuel + 1) last' others) := by
  cases all with
  | nil => exact follows_pure same
  | cons first rest =>
    rw [evalStatements_cons, evalStatements_cons]
    exact (ih.node _ _ first).checked (fun _ _ same => same) fun v w same => ih.statements v w _ _ same rest

private theorem arguments_succ {nodes others : List Scriptlet.Node} (all : List.Forall₂ t.Node nodes others) :
    t.Follows (Option.Rel (SameValues t.ref)) (evalArguments (fuel + 1) nodes) (evalArguments (fuel + 1) others) := by
  cases all with
  | nil => exact follows_pure (.some .nil)
  | cons first rest =>
    rw [evalArguments_cons, evalArguments_cons]
    refine (ih.node _ _ first).checked (fun _ _ _ => .none) fun v w same => ?_
    refine (ih.arguments _ _ rest).bind fun args others listed => follows_pure ?_
    cases listed with
    | none => exact .none
    | some listed => exact .some (.cons same listed)

private theorem loop_succ {test test' action action' : Scriptlet.Node} (condition : t.Node test test')
    (holds : t.Node action action') :
    t.Follows t.Value (evalLoop (fuel + 1) test action) (evalLoop (fuel + 1) test' action') := by
  rw [evalLoop_eq, evalLoop_eq]
  refine (ih.node _ _ condition).checked (fun _ _ _ => sameEmpty) fun v w same => ?_
  refine .onCondition ?_ (follows_pure sameEmpty) .loop (condition.position t.nowhere) same
  exact (ih.node _ _ holds).checked (fun _ _ _ => sameEmpty) fun _ _ _ => ih.loop _ _ _ _ condition holds

end Step

theorem alongside (t : Twins) (fuel : Nat) : Alongside t fuel := by
  induction fuel with
  | zero => refine ⟨?_, ?_, ?_, ?_⟩ <;> intros <;> exact follows_outOfFuel _
  | succ fuel ih =>
    exact ⟨fun _ _ same => node_succ ih same, fun _ _ _ _ same all => statements_succ ih same all,
      fun _ _ all => arguments_succ ih all, fun _ _ _ _ condition holds => loop_succ ih condition holds⟩

end Twins

end Scriptlet.Proofs.EvalTwins
