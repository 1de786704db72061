import Scriptlet.Proofs.EvalTwins
import Scriptlet.Proofs.FormedProgram
import Scriptlet.Proofs.ScopeView

/-! Machines that list their functions in other places. A function value is a name and an index into the table of its
own machine, so two machines may hold other values and yet mean the same by them: functions of one name and one
definition. Nothing that a program can do tells such machines apart. -/

namespace Scriptlet.Proofs.FunctionTwins
open StructuredReturn EvalChange EvalTwins FormedProgram ScopeView

/-- Functions of one name whose definitions, each in the table of its machine, are the same. -/
structure SameDefinition (table other : Array Definition) (f g : FunctionRef) : Prop where
  name : f.name = g.name
  listed : ∃ d, table[f.index]? = some d ∧ other[g.index]? = some d ∧ Formed d.body

section Tables
variable {table other : Array Definition} {f g : FunctionRef}

theorem SameDefinition.symm (stands : SameDefinition table other f g) : SameDefinition other table g f := by
  obtain ⟨name, d, listed, same, formed⟩ := stands
  exact ⟨name.symm, d, same, listed, formed⟩

/-- Functions that are declared on both sides stand for each other, and those that did so before still do. -/
theorem sameDefinition_new {d : Definition} (formed : Formed d.body) :
    SameDefinition (table.push d) (other.push d) ⟨d.name, table.size⟩ ⟨d.name, other.size⟩ :=
  ⟨rfl, d, by simp, by simp, formed⟩

theorem SameDefinition.push (stands : SameDefinition table other f g) (d : Definition) :
    SameDefinition (table.push d) (other.push d) f g := by
  obtain ⟨name, old, listed, same, formed⟩ := stands
  obtain ⟨inside, _⟩ := Array.getElem?_eq_some_iff.mp listed
  obtain ⟨within, _⟩ := Array.getElem?_eq_some_iff.mp same
  refine ⟨name, old, ?_, ?_, formed⟩
  · rw [Array.getElem?_push, if_neg (by omega), listed]
  · rw [Array.getElem?_push, if_neg (by omega), same]

end Tables

/-- A program that was read from a text holds no function values, so it corresponds to itself. -/
theorem sameNode_of_formed {place : Position → Position → Prop} {ref : FunctionRef → FunctionRef → Prop}
    (places : ∀ p, place p p) {node : Node} (formed : Formed node) : SameNode place ref node node := by
  induction formed with
  | get p name => exact .get (places p) name
  | @const p v literal =>
    refine .const (places p) (.plain fun f same => ?_)
    subst same
    cases literal
  | set _ given => exact .set (places _) given
  | ret _ given => exact .ret (places _) given
  | block _ statements => exact .block (places _) (List.forall₂_same.mpr statements)
  | branch _ _ condition holds => exact .branch (places _) condition holds .absent
  | choice _ _ _ condition holds fails => exact .branch (places _) condition holds fails
  | loop _ _ condition holds => exact .loop (places _) condition holds
  | call _ _ callee given => exact .call (places _) callee (List.forall₂_same.mpr given)
  | member _ _ => exact .member (places _) _ _ _

section Frames
variable {ref : FunctionRef → FunctionRef → Prop} {frame other globals lowest : Frame} {frames others : List Frame}
  {name : String} {v w : Value}

/-- Frames that bind the same names, to corresponding values. -/
def SameFrame (ref : FunctionRef → FunctionRef → Prop) (frame other : Frame) : Prop :=
  ∀ name, Option.Rel (SameValue ref) (frame.get? name) (other.get? name)

theorem sameFrame_empty : SameFrame ref {} {} := fun _ => .none

theorem SameFrame.binds (same : SameFrame ref frame other) (name : String) : frame.binds name = other.binds name := by
  have found := same name
  unfold Frame.binds
  generalize frame.get? name = value at found
  generalize other.get? name = value' at found
  cases found <;> rfl

theorem SameFrame.set (same : SameFrame ref frame other) (given : SameValue ref v w) :
    SameFrame ref (frame.set name v) (other.set name w) := by
  intro key
  rw [get_set, get_set, Function.update_apply, Function.update_apply]
  split
  · exact .some given
  · exact same key

theorem sameFrame_imp {ref' : FunctionRef → FunctionRef → Prop} (weaker : ∀ f g, ref f g → ref' f g)
    (same : SameFrame ref frame other) : SameFrame ref' frame other := by
  intro name
  have found := same name
  generalize frame.get? name = value at found ⊢
  generalize other.get? name = value' at found ⊢
  cases found with
  | none => exact .none
  | some same =>
    cases same with
    | plain isOther => exact .some (.plain isOther)
    | function stands => exact .some (.function (weaker _ _ stands))

theorem sameFrame_symm {ref' : FunctionRef → FunctionRef → Prop} (flip : ∀ f g, ref f g → ref' g f)
    (same : SameFrame ref frame other) : SameFrame ref' other frame := by
  intro name
  have found := same name
  generalize frame.get? name = value at found ⊢
  generalize other.get? name = value' at found ⊢
  cases found with
  | none => exact .none
  | some same =>
    cases same with
    | plain isOther => exact .some (.plain isOther)
    | function stands => exact .some (.function (flip _ _ stands))

private theorem sameFrame_parameters (params : List String) {args inputs : List Value}
    (given : SameValues ref args inputs) :
    SameFrame ref (.ofParameters params args) (.ofParameters params inputs) := by
  -- The frame that is filled so far is the same on both sides.
  suffices filled : ∀ frame other, SameFrame ref frame other →
      SameFrame ref ((params.zip args).foldl (fun f entry => f.set entry.1 entry.2) frame)
        ((params.zip inputs).foldl (fun f entry => f.set entry.1 entry.2) other) from filled {} {} sameFrame_empty
  induction given generalizing params with
  | nil => simp
  | cons first rest ih =>
    intro frame other same
    cases params with
    | nil => exact same
    | cons param params => exact ih params _ _ (same.set first)

private theorem sameFrames_tail (all : List.Forall₂ (SameFrame ref) frames others) :
    List.Forall₂ (SameFrame ref) frames.tail others.tail := by
  cases all with
  | nil => exact .nil
  | cons _ rest => exact rest

private theorem sameFrames_find (all : List.Forall₂ (SameFrame ref) frames others) (name : String) :
    Option.Rel (SameValue ref) (frames.findSome? (·.get? name)) (others.findSome? (·.get? name)) := by
  induction all with
  | nil => exact .none
  | @cons frame other _ _ first _ ih =>
    have found := first name
    rw [List.findSome?_cons, List.findSome?_cons]
    generalize frame.get? name = value at found
    generalize other.get? name = value' at found
    cases found with
    | some same => exact .some same
    | none => exact ih

private theorem sameFrames_overwrite (all : List.Forall₂ (SameFrame ref) frames others) (given : SameValue ref v w)
    (name : String) :
    Option.Rel (List.Forall₂ (SameFrame ref)) (Machine.overwrite? name v frames)
      (Machine.overwrite? name w others) := by
  induction all with
  | nil => exact .none
  | @cons frame other frames others first rest ih =>
    rw [Machine.overwrite?, Machine.overwrite?, first.binds]
    split
    · exact .some (.cons (first.set given) rest)
    · generalize Machine.overwrite? name v frames = changed at ih
      generalize Machine.overwrite? name w others = changed' at ih
      cases ih with
      | some inner => exact .some (.cons first inner)
      | none => exact .none

private theorem sameFrames_setIn (all : List.Forall₂ (SameFrame ref) frames others)
    (outer : SameFrame ref globals lowest)
    (given : SameValue ref v w) (name : String) :
    List.Forall₂ (SameFrame ref) (setIn name v frames globals).1 (setIn name w others lowest).1 ∧
      SameFrame ref (setIn name v frames globals).2 (setIn name w others lowest).2 := by
  unfold setIn
  have overwritten := sameFrames_overwrite all given name
  generalize Machine.overwrite? name v frames = changed at overwritten
  generalize Machine.overwrite? name w others = changed' at overwritten
  cases overwritten with
  | some inner => exact ⟨inner, outer⟩
  | none =>
    cases all with
    | nil => exact ⟨.nil, outer.set given⟩
    | cons first rest =>
      dsimp only
      rw [outer.binds]
      split
      · exact ⟨.cons first rest, outer.set given⟩
      · exact ⟨.cons (first.set given) rest, outer⟩

end Frames

section Names
variable {ref : FunctionRef → FunctionRef → Prop} (named : ∀ f g, ref f g → f.name = g.name) {v w : Value}
include named

theorem SameValue.debug (same : SameValue ref v w) : v.debug = w.debug := by
  cases same with
  | plain => rfl
  | function stands => exact congrArg (fun name => "Function(" ++ name ++ ")") (named _ _ stands)

theorem SameValue.text (same : SameValue ref v w) : v.text = w.text := by
  cases same with
  | plain => rfl
  | function stands => exact SameValue.debug named (.function stands)

private theorem sameValues_printed {args inputs : List Value} (given : SameValues ref args inputs) :
    Native.printed args = Native.printed inputs := by
  have texts : args.map Value.text = inputs.map Value.text := by
    induction given with
    | nil => rfl
    | cons first _ ih => rw [List.map_cons, List.map_cons, SameValue.text named first, ih]
  rw [Native.printed, Native.printed, texts]

end Names

/-- What is said of a fault. -/
def account (fault : RuntimeFault) : String × String × Option String := (fault.kind, fault.describe, fault.cause?)

theorem SameFault.account {ref : FunctionRef → FunctionRef → Prop} (named : ∀ f g, ref f g → f.name = g.name)
    {fault other : RuntimeFault} (same : SameFault ref fault other) : account fault = account other := by
  cases same with
  | same => rfl
  | condition construct given =>
    unfold FunctionTwins.account RuntimeFault.describe
    dsimp only
    rw [SameValue.debug named given]
    rfl
  | callee given =>
    unfold FunctionTwins.account RuntimeFault.describe
    dsimp only
    rw [SameValue.debug named given]
    rfl
  | argument f number expected given =>
    unfold FunctionTwins.account RuntimeFault.describe RuntimeFault.cause? NativeFault.message
    dsimp only
    rw [SameValue.debug named given]
    rfl

section Natives
variable {ref : FunctionRef → FunctionRef → Prop} {f : Native} {args inputs : List Value} {v w : Value}

/-- Both calls of a built-in function fail for the same reason, or the results are as described. -/
abbrev SameReply {α : Type} (ref : FunctionRef → FunctionRef → Prop) (gives : α → α → Prop) :
    Except NativeFault α → Except NativeFault α → Prop :=
  SameResult (fun fault other => SameFault ref (.native fault) (.native other)) gives

private theorem sameReply_bind {α β : Type} {gives : α → α → Prop} {final : β → β → Prop}
    {first second : Except NativeFault α}
    {next after : α → Except NativeFault β} (part : SameReply ref gives first second)
    (rest : ∀ a b, gives a b → SameReply ref final (next a) (after b)) :
    SameReply ref final (first >>= next) (second >>= after) := by
  cases part with
  | ok same => exact rest _ _ same
  | error same => exact .error same

private theorem sameReply_number (place : Nat) (same : SameValue ref v w) :
    SameReply ref Eq (f.number place v) (f.number place w) := by
  cases same with
  | plain => exact sameResult_refl (fun _ => .same _) (fun _ => rfl) _
  | function stands => exact .error (.argument _ _ _ (.function stands))

private theorem sameReply_bool (place : Nat) (same : SameValue ref v w) :
    SameReply ref Eq (f.bool place v) (f.bool place w) := by
  cases same with
  | plain => exact sameResult_refl (fun _ => .same _) (fun _ => rfl) _
  | function stands => exact .error (.argument _ _ _ (.function stands))

section Taking
variable {α : Type} {take : Nat → Value → Except NativeFault α}
  (taken : ∀ {v w} place, SameValue ref v w → SameReply ref Eq (take place v) (take place w))
include taken

private theorem sameReply_unary {apply : α → Value} (applied : ∀ a g, apply a ≠ .function g)
    (given : SameValues ref args inputs) :
    SameReply ref (SameValue ref) (f.unary take apply args) (f.unary take apply inputs) := by
  cases given with
  | nil => exact .error (.same _)
  | cons first rest =>
    cases rest with
    | nil =>
      refine sameReply_bind (taken 1 first) fun a b same => ?_
      cases same
      exact .ok (.plain (applied a))
    | cons second rest =>
      unfold Native.unary
      simp only [List.length_cons, rest.length_eq]
      exact .error (.same _)

private theorem sameReply_binary {apply : α → α → Except NativeFault Value}
    (applied : ∀ a b, SameReply ref (SameValue ref) (apply a b) (apply a b)) (given : SameValues ref args inputs) :
    SameReply ref (SameValue ref) (f.binary take apply args) (f.binary take apply inputs) := by
  cases given with
  | nil => exact .error (.same _)
  | cons first rest =>
    cases rest with
    | nil => exact .error (.same _)
    | cons second rest =>
      cases rest with
      | nil =>
        refine sameReply_bind (taken 1 first) fun a b same => sameReply_bind (taken 2 second) fun c d alike => ?_
        cases same
        cases alike
        exact applied a c
      | cons third rest =>
        unfold Native.binary
        simp only [List.length_cons, rest.length_eq]
        exact .error (.same _)

end Taking

private theorem sameReply_compute (given : SameValues ref args inputs) :
    SameReply ref (SameValue ref) (f.compute args) (f.compute inputs) := by
  cases f with
  | divide =>
    refine sameReply_binary sameReply_number (fun a b => ?_) given
    split
    · exact .ok (.plain (by simp))
    · exact .error (.same _)
  | negate => exact sameReply_unary sameReply_number (by simp) given
  | not => exact sameReply_unary sameReply_bool (by simp) given
  | and => exact sameReply_binary sameReply_bool (fun a b => .ok (.plain (by simp))) given
  | or => exact sameReply_binary sameReply_bool (fun a b => .ok (.plain (by simp))) given
  | print => exact .ok (.plain (by simp))
  | _ => exact sameReply_binary sameReply_number (fun a b => .ok (.plain (by simp))) given

private theorem sameReply_apply (named : ∀ f g, ref f g → f.name = g.name) (f : Native)
    (given : SameValues ref args inputs) (sink : Sink) :
    SameReply ref (SameValue ref) (f.apply args sink).1 (f.apply inputs sink).1 ∧
      (f.apply args sink).2 = (f.apply inputs sink).2 := by
  unfold Native.apply
  rw [sameValues_printed named given]
  split
  · split
    · exact ⟨.ok (.plain (by simp)), rfl⟩
    · exact ⟨.error (.same _), rfl⟩
  · exact ⟨sameReply_compute given, rfl⟩

end Natives

section Machines
variable {table other : Array Definition} {m n after final : Machine} {args inputs : List Value}

/-- Machines with these tables that hold corresponding values in the same places, and all else the same. -/
structure Beside (table other : Array Definition) (m n : Machine) : Prop where
  definitions : m.definitions = table ∧ n.definitions = other
  globals : SameFrame (SameDefinition table other) m.globals n.globals
  session : SameFrame (SameDefinition table other) m.session n.session
  frames : List.Forall₂ (SameFrame (SameDefinition table other)) m.frames n.frames
  returned : Option.Rel (SameValue (SameDefinition table other)) m.returned n.returned
  calls : m.calls = n.calls
  source : m.source = n.source
  sink : m.sink = n.sink
  depthLimit : m.depthLimit = n.depthLimit

theorem Beside.definition (beside : Beside table other m n) {f g : FunctionRef}
    (stands : SameDefinition table other f g) :
    m.definition f = n.definition g ∧ Formed (m.definition f).body := by
  obtain ⟨d, listed, same, formed⟩ := stands.listed
  rw [Machine.definition, Machine.definition, beside.definitions.1, beside.definitions.2, listed, same]
  exact ⟨rfl, formed⟩

theorem Beside.lookup (beside : Beside table other m n) (name : String) :
    Option.Rel (SameValue (SameDefinition table other)) (m.lookup name) (n.lookup name) := by
  have inner := sameFrames_find beside.frames name
  have outer := beside.globals name
  unfold Machine.lookup
  generalize m.frames.findSome? _ = value at inner ⊢
  generalize n.frames.findSome? _ = value' at inner ⊢
  generalize m.globals.get? name = below at outer ⊢
  generalize n.globals.get? name = below' at outer ⊢
  cases inner with
  | some same => exact .some same
  | none =>
    cases outer with
    | some same => exact .some same
    | none =>
      cases Native.ofName? name with
      | some f => exact .some (.plain (by simp))
      | none => exact .none

theorem Beside.refusal (beside : Beside table other m n) {f g : FunctionRef} (stands : SameDefinition table other f g)
    (given : SameValues (SameDefinition table other) args inputs) : refusal? m f args = refusal? n g inputs := by
  unfold refusal?
  rw [(beside.definition stands).1, given.length_eq, beside.depthLimit, beside.calls]

theorem Beside.assign (beside : Beside table other m n) {v w : Value}
    (same : SameValue (SameDefinition table other) v w)
    (name : String) : Beside table other (m.assign name v) (n.assign name w) := by
  obtain ⟨inner, outer⟩ := sameFrames_setIn beside.frames beside.globals same name
  rw [assign_eq, assign_eq]
  exact { beside with frames := inner, globals := outer }

theorem Beside.beginCall (beside : Beside table other m n) {f g : FunctionRef} (stands : SameDefinition table other f g)
    (given : SameValues (SameDefinition table other) args inputs) :
    Beside table other (beginCall m (m.definition f) args) (beginCall n (n.definition g) inputs) := by
  rw [← (beside.definition stands).1]
  exact { beside with
    frames := .cons (sameFrame_parameters _ given) .nil
    returned := .none
    calls := congrArg (_ :: ·) beside.calls }

/-- What can be told of an error, apart from the values that went into its texts. -/
def report (e : RuntimeError) : (String × String × Option String) × Report := (account e.fault, e.report)

theorem Beside.error (beside : Beside table other m n) (position : Position) {fault fault' : RuntimeFault}
    (same : SameFault (SameDefinition table other) fault fault') :
    report (m.error position fault) = report (n.error position fault') := by
  have told := SameFault.account (fun _ _ stands => stands.name) same
  have message : fault.describe = fault'.describe := congrArg (fun told => told.2.1) told
  simp only [report, RuntimeError.report, Machine.error, told, message, beside.source, beside.calls]

variable (table other) in
/-- Machines beside each other stay so. -/
def besides : Twins where
  place := Eq
  ref := SameDefinition table other
  related := Beside table other
  alike e f := report e = report f
  excused _ := False
  nowhere := same_nowhere
  returned beside := beside.returned
  lookup := Beside.lookup
  body beside stands := by
    obtain ⟨same, formed⟩ := beside.definition stands
    rw [← same]
    exact sameNode_of_formed (fun _ => rfl) formed
  refusal beside stands given := .inl (beside.refusal stands given)
  error beside here same := by
    subst here
    exact beside.error _ same
  native beside given f := by
    obtain ⟨reply, sink⟩ := sameReply_apply (fun _ _ stands => stands.name) f given _
    rw [← beside.sink, ← sink]
    exact ⟨reply, { beside with sink := rfl }⟩
  assign beside same name := beside.assign same name
  record beside same := { beside with returned := .some same }
  enterBlock beside := { beside with frames := .cons sameFrame_empty beside.frames }
  leaveBlock beside := { beside with frames := sameFrames_tail beside.frames }
  beginCall beside stands given := beside.beginCall stands given
  endCall beside inside := { inside with
    frames := beside.frames, returned := beside.returned, calls := congrArg List.tail inside.calls }

/-- What machines beside each other end with. -/
inductive SameEvaluation (table other : Array Definition) :
    Except RuntimeError Value × Machine → Except RuntimeError Value × Machine → Prop where
  | value {v w after final} (same : SameValue (SameDefinition table other) v w) (beside : Beside table other after final) :
      SameEvaluation table other (.ok v, after) (.ok w, final)
  | error {e f after final} (same : report e = report f) (beside : Beside table other after final) :
      SameEvaluation table other (.error e, after) (.error f, final)

private theorem sameEvaluation_of_answers {first : Except RuntimeError Value × Machine}
    {reply : Option (Except RuntimeError Value × Machine)}
    (answer : (besides table other).Answers (SameValue (SameDefinition table other)) first reply) :
    ∃ second, reply = some second ∧ SameEvaluation table other first second := by
  cases answer with
  | value same beside => exact ⟨_, rfl, .value same beside⟩
  | error same beside => exact ⟨_, rfl, .error same beside⟩
  | excused never => exact never.elim

section Evaluation
variable {fuel : Nat} {first : Except RuntimeError Value × Machine} (beside : Beside table other m n)
include beside

theorem Beside.node {node : Node} (formed : Formed node) (ran : eval fuel node m = some first) :
    ∃ second, eval fuel node n = some second ∧ SameEvaluation table other first second := by
  have same : (besides table other).Node node node := sameNode_of_formed (fun _ => rfl) formed
  exact sameEvaluation_of_answers (((besides table other).alongside fuel).node node node same m n beside first ran)

theorem Beside.statements {nodes : List Node} (formed : ∀ node ∈ nodes, Formed node)
    (ran : evalStatements fuel .empty nodes m = some first) :
    ∃ second, evalStatements fuel .empty nodes n = some second ∧ SameEvaluation table other first second := by
  have same : List.Forall₂ (besides table other).Node nodes nodes :=
    List.forall₂_same.mpr fun node member => sameNode_of_formed (fun _ => rfl) (formed node member)
  exact sameEvaluation_of_answers (((besides table other).alongside fuel).statements .empty .empty nodes nodes
    Twins.sameEmpty same m n beside first ran)

end Evaluation

end Machines

end Scriptlet.Proofs.FunctionTwins
