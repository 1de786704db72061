import Scriptlet.Proofs.ReturnRecord

/-! One induction over evaluation. A judgement on computations that each single operation satisfies, and that goes
over from the parts of a construct to the whole, holds of the evaluation of every node. What is known of the values
that a program computes, and of the nodes that it consists of, may be used on the way. -/

namespace Scriptlet.Proofs.EvalInduction
open Eval EvalFuel StructuredReturn

/-- The nodes whose evaluation a node may start. What a member is taken of is not among them, since it is never
evaluated. -/
def parts : Node → List Node
  | .set _ _ value => [value]
  | .ret _ value => [value]
  | .block _ statements => statements
  | .branch _ test action otherwise => test :: action :: (if otherwise.isAbsent then [] else [otherwise])
  | .loop _ test action => [test, action]
  | .call _ function arguments => function :: arguments
  | _ => []

theorem otherwise_mem_parts {p : Position} {test action otherwise : Node} (given : otherwise.isAbsent = false) :
    otherwise ∈ parts (.branch p test action otherwise) := by
  simp [parts, given]

/-- Arguments of which all values are fit, if there are any. -/
def AllFit (fit : Value → Prop) (args : Option (List Value)) :
    Prop := ∀ values, args = some values → ∀ v ∈ values, fit v

/-- A judgement says of a computation that it behaves, and that its values are as described. It follows the
constructs of a program whose nodes are `plain` and whose values are `fit`. -/
structure Rules (fit : Value → Prop) (plain : Node → Prop)
    (judged : {α : Type} → (α → Prop) → Eval α → Prop) : Prop where
  empty : fit .empty
  part : ∀ {node}, plain node → ∀ inner ∈ parts node, plain inner
  const : ∀ {p v}, plain (.const p v) → fit v
  outOfFuel : ∀ {α : Type} (post : α → Prop), judged post outOfFuel
  pure : ∀ {α : Type} {post : α → Prop} {v : α}, post v → judged post (pure v)
  fail : ∀ {α : Type} (post : α → Prop) (p : Position) (fault : RuntimeFault), judged post (fail p fault)
  isReturning : judged (fun _ => True) isReturning
  bind : ∀ {α β : Type} {post : α → Prop} {final : β → Prop} {first : Eval α} {next : α → Eval β},
    judged post first → (∀ v, post v → judged final (next v)) → judged final (first >>= next)
  get : ∀ (p : Position) (name : String), judged fit (eval 1 (.get p name))
  assign : ∀ (name : String) {v : Value}, fit v → judged fit fun m => some (.ok .empty, m.assign name v)
  record : ∀ {v : Value}, fit v → judged fit fun m => some (.ok v, { m with returned := some v })
  inFrame : ∀ {body : Eval Value}, judged fit body → judged fit (inFrame body)
  native : ∀ (p : Position) (name : String) {args : List Value}, (∀ v ∈ args, fit v) →
    judged fit (callNative p name args)
  function : ∀ (p : Position) {f : FunctionRef} {args : List Value} {run : Node → Eval Value}, fit (.function f) →
    (∀ v ∈ args, fit v) → (∀ node, plain node → judged fit (run node)) → judged fit (callFunction p f args run)

namespace Rules

variable {fit : Value → Prop} {plain : Node → Prop} {judged : {α : Type} → (α → Prop) → Eval α → Prop}
  (rules : Rules fit plain judged)
include rules

theorem checked {α β : Type} {post : α → Prop} {final : β → Prop} {first : Eval α} {stop : α → β} {next : α → Eval β}
    (part : judged post first) (stopped : ∀ v, post v → final (stop v))
    (rest : ∀ v, post v → judged final (next v)) : judged final (checked first stop next) := by
  refine rules.bind part fun v holds => rules.bind rules.isReturning fun returning _ => ?_
  cases returning with
  | true => exact rules.pure (stopped v holds)
  | false => exact rest v holds

theorem onCondition {yes no : Eval Value} (holds : judged fit yes) (fails : judged fit no) (construct : Conditional)
    (p : Position) (v : Value) : judged fit (onCondition construct p yes no v) := by
  rcases v with _ | (_ | _) | _ | _ | _ | _
  · exact rules.fail _ _ _
  · exact fails
  · exact holds
  all_goals exact rules.fail _ _ _

theorem call {run : Node → Eval Value} {callee : Value} {args : List Value} (p : Position) (known : fit callee)
    (given : ∀ v ∈ args, fit v) (inside : ∀ node, plain node → judged fit (run node)) :
    judged fit (call p callee args run) := by
  cases callee with
  | native name => exact rules.native p name given
  | function f => exact rules.function p known given inside
  | _ => exact rules.fail _ _ _

/-- The judgement on all four functions of the evaluator, with the same fuel. -/
structure Judged (fit : Value → Prop) (plain : Node → Prop) (judged : {α : Type} → (α → Prop) → Eval α → Prop)
    (fuel : Nat) : Prop where
  node : ∀ node, plain node → judged fit (eval fuel node)
  statements : ∀ last nodes, fit last → (∀ node ∈ nodes, plain node) → judged fit (evalStatements fuel last nodes)
  arguments : ∀ nodes, (∀ node ∈ nodes, plain node) → judged (AllFit fit) (evalArguments fuel nodes)
  loop : ∀ test action, plain test → plain action → judged fit (evalLoop fuel test action)

theorem node_succ {fuel : Nat} (ih : Judged fit plain judged fuel) (node : Node) (known : plain node) :
    judged fit (eval (fuel + 1) node) := by
  have inner : ∀ part ∈ parts node, plain part := rules.part known
  cases node with
  | absent => exact rules.fail _ _ _
  | unknown p => exact rules.fail _ _ _
  | const p v => exact rules.pure (rules.const known)
  | get p name => exact rules.get p name
  | member p base name => exact rules.fail _ _ _
  | set p name value =>
    rw [eval_set]
    exact rules.checked (ih.node value (inner _ List.mem_cons_self)) (fun _ _ => rules.empty)
      fun v holds => rules.assign name holds
  | ret p value =>
    rw [eval_ret]
    exact rules.checked (ih.node value (inner _ List.mem_cons_self)) (fun _ holds => holds)
      fun v holds => rules.record holds
  | block p nodes => exact rules.inFrame (ih.statements .empty nodes rules.empty inner)
  | branch p test action otherwise =>
    rw [eval_branch]
    refine rules.checked (ih.node test (inner _ List.mem_cons_self)) (fun _ _ => rules.empty) fun v _ => ?_
    refine rules.onCondition (ih.node action (inner _ (List.mem_cons_of_mem _ List.mem_cons_self))) ?_ _ _ v
    split
    · exact rules.pure rules.empty
    next given =>
      exact ih.node otherwise (inner _ (otherwise_mem_parts (by simpa using given)))
  | loop p test action =>
    exact ih.loop test action (inner _ List.mem_cons_self) (inner _ (List.mem_cons_of_mem _ List.mem_cons_self))
  | call p function nodes =>
    rw [eval_call]
    refine rules.checked (ih.node function (inner _ List.mem_cons_self)) (fun _ _ => rules.empty) fun callee holds => ?_
    refine rules.bind (ih.arguments nodes fun node member => inner node (List.mem_cons_of_mem _ member)) ?_
    intro args given
    cases args with
    | none => exact rules.pure rules.empty
    | some args => exact rules.call p holds (given args rfl) ih.node

/-- The judgement holds of evaluation, whatever the fuel. -/
theorem all (fuel : Nat) : Judged fit plain judged fuel := by
  induction fuel with
  | zero => refine ⟨?_, ?_, ?_, ?_⟩ <;> intros <;> exact rules.outOfFuel _
  | succ fuel ih =>
    refine ⟨rules.node_succ ih, fun last nodes holds known => ?_, fun nodes known => ?_, fun test action first second => ?_⟩
    · cases nodes with
      | nil => exact rules.pure holds
      | cons node rest =>
        rw [evalStatements_cons]
        obtain ⟨first, others⟩ := List.forall_mem_cons.mp known
        exact rules.checked (ih.node node first) (fun _ holds => holds) fun v holds => ih.statements v rest holds others
    · cases nodes with
      | nil => exact rules.pure (by simp [AllFit])
      | cons node rest =>
        rw [evalArguments_cons]
        obtain ⟨first, others⟩ := List.forall_mem_cons.mp known
        refine rules.checked (ih.node node first) (fun _ _ => nofun) fun v holds => ?_
        refine rules.bind (ih.arguments rest others) fun args fitting => rules.pure ?_
        rintro _ same
        obtain ⟨values, rfl, rfl⟩ := Option.map_eq_some_iff.mp same
        exact List.forall_mem_cons.mpr ⟨holds, fitting values rfl⟩
    · rw [evalLoop_eq]
      refine rules.checked (ih.node test first) (fun _ _ => rules.empty) fun v _ => ?_
      refine rules.onCondition ?_ (rules.pure rules.empty) _ _ v
      exact rules.checked (ih.node action second) (fun _ _ => rules.empty) fun _ _ => ih.loop test action first second

end Rules

/-- The rules for a judgement on computations alone. What follows a computation needs to be judged only for the values
that the computation can give. -/
structure Steps (judged : {α : Type} → Eval α → Prop) : Prop where
  outOfFuel : ∀ {α : Type}, judged (outOfFuel : Eval α)
  pure : ∀ {α : Type} (v : α), judged (pure v)
  fail : ∀ {α : Type} (p : Position) (fault : RuntimeFault), judged (fail p fault : Eval α)
  isReturning : judged isReturning
  bind : ∀ {α β : Type} {first : Eval α} {next : α → Eval β}, judged first →
    (∀ m v mid, first m = some (.ok v, mid) → judged (next v)) → judged (first >>= next)
  get : ∀ (p : Position) (name : String), judged (eval 1 (.get p name))
  assign : ∀ (name : String) (v : Value), judged fun m => some (.ok Value.empty, m.assign name v)
  record : ∀ v : Value, judged fun m => some (.ok v, { m with returned := some v })
  inFrame : ∀ {body : Eval Value}, judged body → judged (inFrame body)
  native : ∀ (p : Position) (name : String) (args : List Value), judged (callNative p name args)
  function : ∀ (p : Position) (f : FunctionRef) (args : List Value) {run : Node → Eval Value},
    (∀ node, judged (run node)) → judged (callFunction p f args run)

namespace Steps

variable {judged : {α : Type} → Eval α → Prop}

/-- What the values are like is known of the values alone. -/
theorem rules (steps : Steps judged) : Rules (fun _ => True) (fun _ => True)
    fun post c => judged c ∧ ∀ m v after, c m = some (.ok v, after) → post v where
  empty := trivial
  part _ _ _ := trivial
  const _ := trivial
  outOfFuel post := ⟨steps.outOfFuel, fun m v after ran => by cases ran⟩
  pure holds := ⟨steps.pure _, fun m v after ran => by cases ran; exact holds⟩
  fail post p fault := ⟨steps.fail p fault, fun m v after ran => by cases ran⟩
  isReturning := ⟨steps.isReturning, fun _ _ _ _ => trivial⟩
  bind := by
    intro α β post final first next part rest
    refine ⟨steps.bind part.1 fun m v mid ran => (rest v (part.2 m v mid ran)).1, fun m w after ran => ?_⟩
    rw [bind_apply] at ran
    split at ran
    · cases ran
    · cases ran
    next v mid reached =>
      exact (rest v (part.2 m v mid reached)).2 mid w after ran
  get p name := ⟨steps.get p name, fun _ _ _ _ => trivial⟩
  assign name v _ := ⟨steps.assign name v, fun _ _ _ _ => trivial⟩
  record _ := ⟨steps.record _, fun _ _ _ _ => trivial⟩
  inFrame body := ⟨steps.inFrame body.1, fun _ _ _ _ => trivial⟩
  native p name _ _ := ⟨steps.native p name _, fun _ _ _ _ => trivial⟩
  function p _ _ _ _ _ inside := ⟨steps.function p _ _ fun node => (inside node trivial).1, fun _ _ _ _ => trivial⟩

theorem node (steps : Steps judged) (fuel : Nat) (node : Node) : judged (eval fuel node) :=
  ((steps.rules.all fuel).node node trivial).1

theorem statements (steps : Steps judged) (fuel : Nat) (last : Value) (nodes : List Node) :
    judged (evalStatements fuel last nodes) :=
  ((steps.rules.all fuel).statements last nodes trivial fun _ _ => trivial).1

theorem arguments (steps : Steps judged) (fuel : Nat) (nodes : List Node) : judged (evalArguments fuel nodes) :=
  ((steps.rules.all fuel).arguments nodes fun _ _ => trivial).1

end Steps

end Scriptlet.Proofs.EvalInduction
