import Scriptlet.Machine.Eval

/-! Structured return. The rules give a node one of three outcomes: a value, a return or an error. What
breaks off a part breaks off the whole at once, and a call ends a return. No rule looks at the machine's
own record of a return. -/

namespace Scriptlet.Proofs.StructuredReturn
/-- Why an evaluation breaks off. -/
inductive Abrupt where
  | ret (value : Value)
  | error (e : RuntimeError)

inductive Outcome (α : Type) where
  | normal (value : α)
  | abrupt (reason : Abrupt)

/-- What a call makes of the outcome of a function's body. -/
def Outcome.ofCall : Outcome Value → Outcome Value
  | normal _ => normal .empty
  | abrupt (.ret value) => normal value
  | abrupt (.error e) => abrupt (.error e)

def raise (m : Machine) (position : Position) (fault : RuntimeFault) : Outcome Value :=
  .abrupt (.error (m.error position fault))

def enterBlock (m : Machine) : Machine := { m with frames := {} :: m.frames }

def leaveBlock (m : Machine) : Machine := { m with frames := m.frames.tail }

def enterCall (m : Machine) (d : Definition) (args : List Value) : Machine :=
  { m with frames := [Frame.ofParameters d.params args], calls := d.name :: m.calls }

/-- The machine after a body, with the scope of the caller back in place and the name of the function taken off. -/
def leaveCall (caller after : Machine) : Machine :=
  { after with frames := caller.frames, calls := after.calls.tail }

mutual

/-- The outcome of a node and the machine after it. -/
inductive Evaluates : Machine → Node → Outcome Value → Machine → Prop where
  | absent {m} : Evaluates m .absent (raise m {} .unsupported) m
  | unknown {m p} : Evaluates m (.unknown p) (raise m p .unsupported) m
  | const {m p v} : Evaluates m (.const p v) (.normal v) m
  | get {m p name v} (found : m.lookup name = some v) : Evaluates m (.get p name) (.normal v) m
  | getUnknown {m p name} (missing : m.lookup name = none) :
      Evaluates m (.get p name) (raise m p (.unknownVariable name)) m
  | set {m p name node v after} (value : Evaluates m node (.normal v) after) :
      Evaluates m (.set p name node) (.normal .empty) (after.assign name v)
  | setAbrupt {m p name node reason after} (value : Evaluates m node (.abrupt reason) after) :
      Evaluates m (.set p name node) (.abrupt reason) after
  | block {m p nodes outcome after} (body : EvaluatesAll (enterBlock m) .empty nodes outcome after) :
      Evaluates m (.block p nodes) outcome (leaveBlock after)
  | branchThen {m p test action otherwise mid outcome after}
      (holds : Evaluates m test (.normal (.bool true)) mid) (taken : Evaluates mid action outcome after) :
      Evaluates m (.branch p test action otherwise) outcome after
  | branchElse {m p test action otherwise mid outcome after}
      (fails : Evaluates m test (.normal (.bool false)) mid) (given : otherwise.isAbsent = false)
      (taken : Evaluates mid otherwise outcome after) :
      Evaluates m (.branch p test action otherwise) outcome after
  | branchNone {m p test action otherwise after}
      (fails : Evaluates m test (.normal (.bool false)) after) (none : otherwise.isAbsent = true) :
      Evaluates m (.branch p test action otherwise) (.normal .empty) after
  | branchBad {m p test action otherwise v after} (bad : Evaluates m test (.normal v) after)
      (kind : ∀ b, v ≠ .bool b) :
      Evaluates m (.branch p test action otherwise) (raise after test.position (.badCondition .branch v)) after
  | branchAbrupt {m p test action otherwise reason after} (broken : Evaluates m test (.abrupt reason) after) :
      Evaluates m (.branch p test action otherwise) (.abrupt reason) after
  | loopAgain {m p test action mid v next outcome after} (holds : Evaluates m test (.normal (.bool true)) mid)
      (turn : Evaluates mid action (.normal v) next) (again : Evaluates next (.loop p test action) outcome after) :
      Evaluates m (.loop p test action) outcome after
  | loopBreak {m p test action mid reason after} (holds : Evaluates m test (.normal (.bool true)) mid)
      (turn : Evaluates mid action (.abrupt reason) after) :
      Evaluates m (.loop p test action) (.abrupt reason) after
  | loopDone {m p test action after} (fails : Evaluates m test (.normal (.bool false)) after) :
      Evaluates m (.loop p test action) (.normal .empty) after
  | loopBad {m p test action v after} (bad : Evaluates m test (.normal v) after) (kind : ∀ b, v ≠ .bool b) :
      Evaluates m (.loop p test action) (raise after test.position (.badCondition .loop v)) after
  | loopAbrupt {m p test action reason after} (broken : Evaluates m test (.abrupt reason) after) :
      Evaluates m (.loop p test action) (.abrupt reason) after
  | ret {m p node v after} (value : Evaluates m node (.normal v) after) :
      Evaluates m (.ret p node) (.abrupt (.ret v)) after
  | retAbrupt {m p node reason after} (value : Evaluates m node (.abrupt reason) after) :
      Evaluates m (.ret p node) (.abrupt reason) after
  | call {m p function arguments callee mid args ready outcome after}
      (first : Evaluates m function (.normal callee) mid)
      (given : EvaluatesEach mid arguments (.normal args) ready) (applied : Calls ready p callee args outcome after) :
      Evaluates m (.call p function arguments) outcome after
  | callAbrupt {m p function arguments reason after} (first : Evaluates m function (.abrupt reason) after) :
      Evaluates m (.call p function arguments) (.abrupt reason) after
  | callArgumentAbrupt {m p function arguments callee mid reason after}
      (first : Evaluates m function (.normal callee) mid) (given : EvaluatesEach mid arguments (.abrupt reason) after) :
      Evaluates m (.call p function arguments) (.abrupt reason) after
  | member {m p base name} : Evaluates m (.member p base name) (raise m p (.memberAccess name)) m

/-- Statements in order. The value is that of the last one, or the given one if there are none. -/
inductive EvaluatesAll : Machine → Value → List Node → Outcome Value → Machine → Prop where
  | nil {m last} : EvaluatesAll m last [] (.normal last) m
  | cons {m last node rest v mid outcome after} (first : Evaluates m node (.normal v) mid)
      (others : EvaluatesAll mid v rest outcome after) : EvaluatesAll m last (node :: rest) outcome after
  | stop {m last node rest reason after} (first : Evaluates m node (.abrupt reason) after) :
      EvaluatesAll m last (node :: rest) (.abrupt reason) after

inductive EvaluatesEach : Machine → List Node → Outcome (List Value) → Machine → Prop where
  | nil {m} : EvaluatesEach m [] (.normal []) m
  | cons {m node rest v mid vs after} (first : Evaluates m node (.normal v) mid)
      (others : EvaluatesEach mid rest (.normal vs) after) : EvaluatesEach m (node :: rest) (.normal (v :: vs)) after
  | later {m node rest v mid reason after} (first : Evaluates m node (.normal v) mid)
      (others : EvaluatesEach mid rest (.abrupt reason) after) : EvaluatesEach m (node :: rest) (.abrupt reason) after
  | stop {m node rest reason after} (first : Evaluates m node (.abrupt reason) after) :
      EvaluatesEach m (node :: rest) (.abrupt reason) after

inductive Calls : Machine → Position → Value → List Value → Outcome Value → Machine → Prop where
  | native {m p name f args v sink} (known : Native.ofName? name = some f)
      (applied : f.apply args m.sink = (.ok v, sink)) :
      Calls m p (.native name) args (.normal v) { m with sink }
  | nativeFault {m p name f args fault sink} (known : Native.ofName? name = some f)
      (applied : f.apply args m.sink = (.error fault, sink)) :
      Calls m p (.native name) args (raise m p (.native fault)) { m with sink }
  | nativeUnknown {m p name args} (unknown : Native.ofName? name = none) :
      Calls m p (.native name) args (raise m p (.unknownNative name)) m
  | function {m p f args outcome after} (fits : args.length = (m.definition f).params.length)
      (shallow : m.calls.length < m.depthLimit) (given : (m.definition f).body.isAbsent = false)
      (body : Evaluates (enterCall m (m.definition f) args) (m.definition f).body outcome after) :
      Calls m p (.function f) args outcome.ofCall (leaveCall m after)
  | arity {m p f args} (differs : args.length ≠ (m.definition f).params.length) :
      Calls m p (.function f) args
        (raise m p (.arity (m.definition f).name (m.definition f).params.length args.length)) m
  | overflow {m p f args} (fits : args.length = (m.definition f).params.length)
      (deep : m.depthLimit ≤ m.calls.length) :
      Calls m p (.function f) args (raise m p (.overflow m.depthLimit (m.definition f).name)) m
  | noBody {m p f args} (fits : args.length = (m.definition f).params.length)
      (shallow : m.calls.length < m.depthLimit) (none : (m.definition f).body.isAbsent = true) :
      Calls m p (.function f) args (raise m p (.noBody (m.definition f).name)) m
  | notCallable {m p v args} (native : ∀ name, v ≠ .native name) (function : ∀ f, v ≠ .function f) :
      Calls m p v args (raise m p (.notCallable v)) m

end

end Scriptlet.Proofs.StructuredReturn
