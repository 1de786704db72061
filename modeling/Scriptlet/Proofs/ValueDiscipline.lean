import Scriptlet.Proofs.EvalInduction
import Scriptlet.Proofs.EvalMoments
import Scriptlet.Proofs.NumberInvariant
import Scriptlet.Proofs.ScopeView

/-! What a program can get hold of. A property of values that constants have, that the names of built-in functions
have and that built-in functions pass on from their arguments to their results is a property of everything that is
ever computed, set, passed or returned; and where functions have it only if their bodies are as described, nothing
but such nodes is ever evaluated. -/

namespace Scriptlet.Proofs.ValueDiscipline
open Eval EvalFuel StructuredReturn EvalChange EvalInduction EvalMoments NumberInvariant ScopeView

section Natives
variable {f : Native} {args : List Value} {value : Value}

/-- A truth value, or a number that is normal or the negative of an argument, or nothing. -/
inductive Computes (args : List Value) : Value → Prop where
  | empty : Computes args .empty
  | bool (b : Bool) : Computes args (.bool b)
  | number {n : Number} (normal : Normal n) : Computes args (.number n)
  | negative {n : Number} (given : .number n ∈ args) : Computes args (.number (-n))

private theorem binary_cases {α : Type} {take : Nat → Value → Except NativeFault α}
    {apply : α → α → Except NativeFault Value}
    (computed : f.binary take apply args = .ok value) : ∃ a b, apply a b = .ok value := by
  unfold Native.binary at computed
  split at computed
  next v w =>
    cases first : take 1 v with
    | error e => simp [first, bind, Except.bind] at computed
    | ok a =>
      cases second : take 2 w with
      | error e => simp [first, second, bind, Except.bind] at computed
      | ok b => exact ⟨a, b, by simpa [first, second, bind, Except.bind] using computed⟩
  · cases computed

private theorem unary_cases {α : Type} {take : Nat → Value → Except NativeFault α} {apply : α → Value}
    (computed : f.unary take apply args = .ok value) : ∃ v a, args = [v] ∧ take 1 v = .ok a ∧ value = apply a := by
  unfold Native.unary at computed
  split at computed
  next v =>
    cases taken : take 1 v with
    | error e => simp [taken, bind, Except.bind] at computed
    | ok a =>
      simp only [taken, bind, Except.bind] at computed
      cases computed
      exact ⟨v, a, rfl, taken, rfl⟩
  · cases computed

private theorem computes_arithmetic {apply : Number → Number → Number} (normal : ∀ a b, Normal (apply a b))
    (computed : f.arithmetic apply args = .ok value) : Computes args value := by
  obtain ⟨a, b, same⟩ := binary_cases computed
  cases same
  exact .number (normal a b)

private theorem computes_comparison {holds : Ordering → Bool} (computed : f.comparison holds args = .ok value) :
    Computes args value := by
  obtain ⟨a, b, same⟩ := binary_cases computed
  cases same
  exact .bool _

private theorem computes_logic {apply : Bool → Bool → Bool} (computed : f.logic apply args = .ok value) :
    Computes args value := by
  obtain ⟨a, b, same⟩ := binary_cases computed
  cases same
  exact .bool _

private theorem computes_of_compute (computed : f.compute args = .ok value) : Computes args value := by
  cases f with
  | add => exact computes_arithmetic add_normal computed
  | subtract => exact computes_arithmetic sub_normal computed
  | multiply => exact computes_arithmetic mul_normal computed
  | divide =>
    obtain ⟨a, b, same⟩ := binary_cases computed
    split at same
    next divided =>
      cases same
      exact .number (div_normal divided)
    · cases same
  | negate =>
    obtain ⟨v, a, rfl, taken, rfl⟩ := unary_cases computed
    cases v with
    | number n =>
      cases taken
      exact .negative List.mem_cons_self
    | _ => cases taken
  | not =>
    obtain ⟨v, a, rfl, taken, rfl⟩ := unary_cases computed
    exact .bool _
  | and => exact computes_logic computed
  | or => exact computes_logic computed
  | print =>
    cases computed
    exact .empty
  | _ => exact computes_comparison computed

end Natives

private theorem mem_setEntry {name : String} {value : Value} {entries : List (String × Value)} {entry : String × Value}
    (member : entry ∈ Frame.setEntry name value entries) : entry.2 = value ∨ entry ∈ entries := by
  induction entries with
  | nil => exact Or.inl (by cases member with | head => rfl | tail _ none => cases none)
  | cons first rest ih =>
    obtain ⟨key, old⟩ := first
    rw [Frame.setEntry] at member
    split at member
    · rcases List.mem_cons.mp member with rfl | later
      · exact Or.inl rfl
      · exact Or.inr (List.mem_cons_of_mem _ later)
    · rcases List.mem_cons.mp member with rfl | later
      · exact Or.inr List.mem_cons_self
      · exact (ih later).imp_right (List.mem_cons_of_mem _)

theorem defineAll_definitions (m : Machine) (functions : List Definition) :
    (m.defineAll functions).definitions = m.definitions ++ functions.toArray := by
  induction functions generalizing m with
  | nil => simp [Machine.defineAll]
  | cons d functions ih =>
    change ((m.define d).defineAll functions).definitions = _
    rw [ih]
    simp [Machine.define]

/-- The value of a declared function, which the table has. -/
def DeclaredValue (m : Machine) (functions : List Definition) (value : Value) : Prop :=
  ∃ f d, value = .function f ∧ d ∈ functions ∧ d.name = f.name ∧ m.definitions[f.index]? = some d

/-- What the global frame holds after declarations was there before or has been declared. -/
theorem mem_defineAll {m : Machine} {functions : List Definition} {entry : String × Value}
    (member : entry ∈ (m.defineAll functions).globals.entries) :
    entry ∈ m.globals.entries ∨ DeclaredValue (m.defineAll functions) functions entry.2 := by
  induction functions generalizing m with
  | nil => exact Or.inl member
  | cons d functions ih =>
    change entry ∈ ((m.define d).defineAll functions).globals.entries at member
    rcases ih member with before | ⟨f, other, same, declared, name, found⟩
    · rcases mem_setEntry before with same | old
      · refine Or.inr ⟨_, d, same, List.mem_cons_self, rfl, ?_⟩
        rw [defineAll_definitions]
        simp
      · exact Or.inl old
    · exact Or.inr ⟨f, other, same, List.mem_cons_of_mem _ declared, name, found⟩

/-- The values that are fit and the nodes that are plain, where the functions are those of the table. -/
structure Discipline where
  table : Array Definition
  fit : Value → Prop
  plain : Node → Prop
  empty : fit .empty
  part : ∀ {node}, plain node → ∀ inner ∈ parts node, plain inner
  const : ∀ {p v}, plain (.const p v) → fit v
  name : ∀ {name f}, Native.ofName? name = some f → fit (.native name)
  native : ∀ {args v}, (∀ a ∈ args, fit a) → Computes args v → fit v
  body : ∀ {m : Machine} {f}, m.definitions = table → fit (.function f) → (m.definition f).body.isAbsent = false →
    plain (m.definition f).body

namespace Discipline

section Frames
variable {d : Discipline} {frame : Frame} {name : String} {value : Value}

def FitFrame (d : Discipline) (frame : Frame) : Prop := ∀ entry ∈ frame.entries, d.fit entry.2

private theorem fitFrame_empty : d.FitFrame {} := nofun

theorem FitFrame.get (fitting : d.FitFrame frame) (found : frame.get? name = some value) : d.fit value := by
  obtain ⟨before, after, entries, _⟩ := List.lookup_eq_some_iff.mp found
  exact fitting (name, value) (by rw [entries]; simp)

theorem FitFrame.set (fitting : d.FitFrame frame) (holds : d.fit value) : d.FitFrame (frame.set name value) := by
  intro entry member
  rcases mem_setEntry member with same | old
  · rw [same]
    exact holds
  · exact fitting entry old

private theorem fitFrame_parameters (params : List String) {args : List Value} (given : ∀ v ∈ args, d.fit v) :
    d.FitFrame (Frame.ofParameters params args) :=
  parameters_all fitFrame_empty params fun _ _ v member fitting => fitting.set (given v member)

end Frames

/-- All that the running call can see is fit. -/
structure Keeps (d : Discipline) (m : Machine) : Prop where
  definitions : m.definitions = d.table
  frames : ∀ frame ∈ m.frames, d.FitFrame frame
  globals : d.FitFrame m.globals
  returned : ∀ v, m.returned = some v → d.fit v

section Machines
variable {d : Discipline} {m after : Machine} {args : List Value} {value : Value}

theorem Keeps.lookup (keeps : d.Keeps m) {name : String} (found : m.lookup name = some value) : d.fit value := by
  rw [Machine.lookup, Option.or_eq_some_iff, Option.or_eq_some_iff] at found
  rcases found with inner | ⟨_, outer | ⟨_, native⟩⟩
  · obtain ⟨frame, member, bound⟩ := List.exists_of_findSome?_eq_some inner
    exact (keeps.frames frame member).get bound
  · exact keeps.globals.get outer
  · obtain ⟨f, known, rfl⟩ := Option.map_eq_some_iff.mp native
    exact d.name known

theorem Keeps.assign (keeps : d.Keeps m) (name : String) (holds : d.fit value) : d.Keeps (m.assign name value) := by
  obtain ⟨inner, outer⟩ := setIn_all (fun _ fitting => FitFrame.set fitting holds) keeps.frames keeps.globals
  rw [assign_eq]
  exact ⟨keeps.definitions, inner, outer, keeps.returned⟩

theorem Keeps.record (keeps : d.Keeps m) (holds : d.fit value) : d.Keeps { m with returned := some value } :=
  { keeps with returned := fun _ same => Option.some.inj same ▸ holds }

theorem Keeps.enterBlock (keeps : d.Keeps m) : d.Keeps (enterBlock m) :=
  { keeps with frames := List.forall_mem_cons.mpr ⟨fitFrame_empty, keeps.frames⟩ }

theorem Keeps.leaveBlock (keeps : d.Keeps m) : d.Keeps (leaveBlock m) :=
  { keeps with frames := fun frame member => keeps.frames frame (List.mem_of_mem_tail member) }

theorem Keeps.beginCall (keeps : d.Keeps m) (given : ∀ v ∈ args, d.fit v) (function : Definition) :
    d.Keeps (beginCall m function args) where
  definitions := keeps.definitions
  frames := List.forall_mem_singleton.mpr (fitFrame_parameters function.params given)
  globals := keeps.globals
  returned := nofun

theorem Keeps.endCall (keeps : d.Keeps m) (inside : d.Keeps after) : d.Keeps (endCall m after) where
  definitions := inside.definitions
  frames := keeps.frames
  globals := inside.globals
  returned := keeps.returned

/-- A built-in function changes nothing that a program can see. -/
theorem Keeps.write (keeps : d.Keeps m) (sink : Sink) : d.Keeps { m with sink } :=
  ⟨keeps.definitions, keeps.frames, keeps.globals, keeps.returned⟩

private theorem fit_apply {f : Native} {sink : Sink} (given : ∀ v ∈ args, d.fit v)
    (applied : (f.apply args sink).1 = .ok value) : d.fit value := by
  unfold Native.apply at applied
  split at applied
  · split at applied
    · cases applied
      exact d.empty
    · cases applied
  · exact d.native given (computes_of_compute applied)

end Machines

/-- The computation leaves only what is fit behind, and its value is as described. -/
def Holds (d : Discipline) {α : Type} (post : α → Prop) (c : Eval α) : Prop :=
  ∀ m outcome after, d.Keeps m → c m = some (outcome, after) → d.Keeps after ∧ ∀ v, outcome = .ok v → post v

section Computations
variable {α β : Type} {d : Discipline} {post : α → Prop} {final : β → Prop}

theorem Holds.bind {first : Eval α} {next : α → Eval β} (part : d.Holds post first)
    (rest : ∀ v, post v → d.Holds final (next v)) : d.Holds final (first >>= next) := by
  intro m outcome after keeps ran
  rw [bind_apply] at ran
  cases reached : first m with
  | none => simp [reached] at ran
  | some result =>
    obtain ⟨result, mid⟩ := result
    obtain ⟨keeps, holds⟩ := part m result mid keeps reached
    rw [reached] at ran
    cases result with
    | error e =>
      cases ran
      exact ⟨keeps, nofun⟩
    | ok v => exact rest v (holds v rfl) mid outcome after keeps ran

/-- What fails leaves the machine as it is. -/
theorem holds_fail (post : α → Prop) (p : Position) (fault : RuntimeFault) : d.Holds post (fail p fault) := by
  intro m outcome after keeps ran
  cases ran
  exact ⟨keeps, nofun⟩

private theorem holds_get (p : Position) (name : String) : d.Holds d.fit (eval 1 (.get p name)) := by
  intro m outcome after keeps ran
  rw [eval_get] at ran
  cases ran
  refine ⟨keeps, fun v found => ?_⟩
  split at found
  next bound =>
    cases found
    exact keeps.lookup bound
  · cases found

theorem Holds.inFrame {body : Eval Value} (inside : d.Holds d.fit body) : d.Holds d.fit (inFrame body) := by
  intro m outcome after keeps ran
  rw [inFrame_apply] at ran
  obtain ⟨⟨_, _⟩, reached, done⟩ := Option.map_eq_some_iff.mp ran
  cases done
  obtain ⟨keeps, holds⟩ := inside _ _ _ keeps.enterBlock reached
  exact ⟨keeps.leaveBlock, holds⟩

private theorem holds_native (p : Position) (name : String) {args : List Value} (given : ∀ v ∈ args, d.fit v) :
    d.Holds d.fit (callNative p name args) := by
  intro m outcome after keeps ran
  rw [callNative_eq] at ran
  split at ran
  · cases ran
    exact ⟨keeps, nofun⟩
  next f _ =>
    cases ran
    refine ⟨keeps.write _, fun v found => ?_⟩
    cases applied : (f.apply args m.sink).1 with
    | error fault => simp [applied, Except.mapError] at found
    | ok value =>
      rw [applied] at found
      cases found
      exact fit_apply given applied

private theorem holds_function (p : Position) {f : FunctionRef} {args : List Value} {run : Node → Eval Value}
    (known : d.fit (.function f)) (given : ∀ v ∈ args, d.fit v)
    (inside : ∀ node, d.plain node → d.Holds d.fit (run node)) : d.Holds d.fit (callFunction p f args run) := by
  intro m outcome after keeps ran
  rw [callFunction_eq] at ran
  split at ran
  · cases ran
    exact ⟨keeps, nofun⟩
  next accepted =>
    rw [inCall_eq] at ran
    obtain ⟨⟨result, reached⟩, evaluated, done⟩ := Option.map_eq_some_iff.mp ran
    cases done
    have body := d.body keeps.definitions known (accepted_of_refusal accepted).given
    obtain ⟨kept, _⟩ := inside _ body _ _ _ (keeps.beginCall given _) evaluated
    refine ⟨keeps.endCall kept, fun v same => ?_⟩
    cases result with
    | error e => cases same
    | ok last =>
      cases same
      cases returned : reached.returned with
      | none => exact d.empty
      | some value => exact kept.returned value returned

end Computations

theorem rules (d : Discipline) : Rules d.fit d.plain d.Holds where
  empty := d.empty
  part := d.part
  const := d.const
  outOfFuel post := by
    intro m outcome after keeps ran
    cases ran
  pure holds := by
    intro m outcome after keeps ran
    cases ran
    exact ⟨keeps, fun v same => Except.ok.inj same ▸ holds⟩
  fail := holds_fail
  isReturning := by
    intro m outcome after keeps ran
    cases ran
    exact ⟨keeps, fun _ _ => trivial⟩
  bind := Holds.bind
  get := holds_get
  assign name _ holds := by
    intro m outcome after keeps ran
    cases ran
    exact ⟨keeps.assign name holds, fun v same => Except.ok.inj same ▸ d.empty⟩
  record holds := by
    intro m outcome after keeps ran
    cases ran
    exact ⟨keeps.record holds, fun v same => Except.ok.inj same ▸ holds⟩
  inFrame := Holds.inFrame
  native := holds_native
  function := holds_function

private theorem keeps_eval {d : Discipline} {fuel : Nat} {node : Node} {m after : Machine}
    {outcome : Except RuntimeError Value}
    (known : d.plain node) (keeps : d.Keeps m) (ran : eval fuel node m = some (outcome, after)) :
    d.Keeps after ∧ ∀ v, outcome = .ok v → d.fit v :=
  (d.rules.all fuel).node node known m outcome after keeps ran

/-- The machine holds nothing but what is fit, and the node that is about to be evaluated is plain. -/
structure KeepsNow (d : Discipline) (now : Moment) : Prop where
  machine : d.Keeps now.machine
  node : d.plain now.node

section Moments
variable {d : Discipline} {m : Machine} {nodes : List Node} {now next : Moment}

theorem Keeps.among (keeps : d.Keeps m) (known : ∀ node ∈ nodes, d.plain node) (among : Among m nodes next) :
    d.KeepsNow next := by
  induction among with
  | first => exact ⟨keeps, known _ List.mem_cons_self⟩
  | later ran _ _ ih =>
    obtain ⟨first, others⟩ := List.forall_mem_cons.mp known
    exact ih (keeps_eval first keeps ran).1 others

theorem KeepsNow.starts (keeps : d.KeepsNow now) (starts : Starts now next) : d.KeepsNow next := by
  obtain ⟨machine, node⟩ := keeps
  have inner := d.part node
  cases starts with
  | assigned => exact ⟨machine, inner _ List.mem_cons_self⟩
  | returned => exact ⟨machine, inner _ List.mem_cons_self⟩
  | statement reached => exact machine.enterBlock.among inner reached
  | branchTest => exact ⟨machine, inner _ List.mem_cons_self⟩
  | branchThen holds _ =>
    have kept := keeps_eval (inner _ List.mem_cons_self) machine holds
    exact ⟨kept.1, inner _ (List.mem_cons_of_mem _ List.mem_cons_self)⟩
  | branchElse fails _ given =>
    have kept := keeps_eval (inner _ List.mem_cons_self) machine fails
    exact ⟨kept.1, inner _ (otherwise_mem_parts given)⟩
  | loopTest => exact ⟨machine, inner _ List.mem_cons_self⟩
  | loopTurn holds _ =>
    have kept := keeps_eval (inner _ List.mem_cons_self) machine holds
    exact ⟨kept.1, inner _ (List.mem_cons_of_mem _ List.mem_cons_self)⟩
  | loopAgain holds _ turn _ =>
    have kept := keeps_eval (inner _ List.mem_cons_self) machine holds
    exact ⟨(keeps_eval (inner _ (List.mem_cons_of_mem _ List.mem_cons_self)) kept.1 turn).1, node⟩
  | callee => exact ⟨machine, inner _ List.mem_cons_self⟩
  | argument first _ reached =>
    have kept := keeps_eval (inner _ List.mem_cons_self) machine first
    exact kept.1.among (fun node member => inner node (List.mem_cons_of_mem _ member)) reached
  | body first _ given accepted =>
    obtain ⟨kept, known⟩ := keeps_eval (inner _ List.mem_cons_self) machine first
    obtain ⟨ready, args⟩ := (d.rules.all _).arguments _ (fun node member => inner node (List.mem_cons_of_mem _ member))
      _ _ _ kept given
    exact ⟨ready.beginCall (args _ rfl _ rfl) _,
      d.body ready.definitions (known _ rfl) (accepted_of_refusal accepted).given⟩

end Moments

end Discipline

end Scriptlet.Proofs.ValueDiscipline
