import Mathlib.Data.List.Basic
import Scriptlet.Proofs.CallStack
import Scriptlet.Proofs.ValueDiscipline

/-! Programs without loops end. Functions may call each other and themselves, by name or as values that have been
passed on; but every call uses up some of the room that the depth limit leaves, and between two calls evaluation only
goes from a node to its parts. -/

namespace Scriptlet.Proofs.LoopFreeTermination
open Eval EvalFuel StructuredReturn EvalChange EvalInduction EvalMoments CallStack ValueDiscipline

def Contains : Node → Node → Prop := Relation.ReflTransGen fun whole part => part ∈ parts whole

def Throughout (holds : Node → Prop) (code : Node) : Prop := ∀ node, Contains code node → holds node

private theorem throughout_iff {holds : Node → Prop} {code : Node} :
    Throughout holds code ↔ holds code ∧ (parts code).Forall (Throughout holds) := by
  rw [List.forall_iff_forall_mem]
  constructor
  · intro all
    exact ⟨all code .refl, fun part member node inside => all node (.head member inside)⟩
  · rintro ⟨here, inner⟩ node inside
    rcases inside.cases_head with rfl | ⟨part, member, inside⟩
    · exact here
    · exact inner part member node inside

def IsLoop : Node → Prop
  | .loop .. => True
  | _ => False

def LoopFree : Node → Prop := Throughout (¬IsLoop ·)

private theorem sizeOf_part {node part : Node} (member : part ∈ parts node) : sizeOf part < sizeOf node := by
  cases node with
  | block p nodes =>
    have smaller := List.sizeOf_lt_of_mem (show part ∈ nodes from member)
    simp only [Node.block.sizeOf_spec]
    omega
  | call p function arguments =>
    simp only [Node.call.sizeOf_spec]
    rcases List.mem_cons.mp member with rfl | later
    · omega
    · have smaller := List.sizeOf_lt_of_mem later
      omega
  | branch p test action otherwise =>
    simp only [Node.branch.sizeOf_spec]
    simp only [parts, List.mem_cons] at member
    split at member
    · rcases member with rfl | rfl | none
      · omega
      · omega
      · cases none
    · rcases member with rfl | rfl | last
      · omega
      · omega
      · rw [List.mem_singleton.mp last]
        omega
  | loop p test action =>
    simp only [Node.loop.sizeOf_spec]
    simp only [parts, List.mem_cons, List.not_mem_nil, or_false] at member
    rcases member with rfl | rfl <;> omega
  | set p name value =>
    rw [List.mem_singleton.mp member, Node.set.sizeOf_spec]
    omega
  | ret p value =>
    rw [List.mem_singleton.mp member, Node.ret.sizeOf_spec]
    omega
  | _ => cases member

/-- The main part, the bodies of the declared functions, and the bodies of those functions that stand as constants in
such code. -/
inductive Runnable (m : Machine) (functions : List Definition) (main : Node) : Node → Prop where
  | main : Runnable m functions main main
  | declared {d} (member : d ∈ functions) : Runnable m functions main d.body
  | constant {code p f} (runs : Runnable m functions main code) (stands : Contains code (.const p (.function f))) :
      Runnable m functions main ((launch m functions).definition f).body

def runnable (m : Machine) (functions : List Definition) (main : Node) : Discipline where
  table := (launch m functions).definitions
  fit v := ∀ f, v = .function f → Runnable m functions main ((launch m functions).definition f).body
  plain node := ∃ code, Runnable m functions main code ∧ Contains code node
  empty := nofun
  part := by
    rintro node ⟨code, runs, inside⟩ part member
    exact ⟨code, runs, .tail inside member⟩
  const := by
    rintro p v ⟨code, runs, inside⟩ f rfl
    exact .constant runs inside
  name _ := nofun
  native _ computes := by cases computes <;> exact nofun
  body := by
    intro n f same known _
    have body : n.definition f = (launch m functions).definition f := by rw [Machine.definition, same, Machine.definition]
    rw [body]
    exact ⟨_, known f rfl, .refl⟩

private theorem keeps_launch (m : Machine) (functions : List Definition) (main : Node) :
    (runnable m functions main).KeepsNow ⟨launch m functions, main⟩ := by
  refine ⟨⟨rfl, ?_, ?_, ?_⟩, main, .main, .refl⟩
  · rw [launch, defineAll_eq]
    simp
  · intro entry member f same
    rcases mem_defineAll member with before | ⟨g, d, declared, inside, _, found⟩
    · cases before
    · cases declared.symm.trans same
      have body : (launch m functions).definition f = d := by
        rw [Machine.definition, launch, found]
        rfl
      rw [body]
      exact .declared inside
  · rw [launch, defineAll_eq]
    simp

section Ending
variable {m : Machine} {functions : List Definition} {main : Node}

/-- The measure is the room that is left on the call stack, and with the same room the size of the node. -/
theorem ends_of_keeps (free : ∀ code, Runnable m functions main code → LoopFree code) (now : Moment)
    (keeps : (runnable m functions main).KeepsNow now) : EvalMoments.Ends now := by
  refine ends_of_parts fun next starts => ?_
  have later := keeps.starts starts
  rcases starts_cases starts with ⟨d, enters⟩ | ⟨same, part | ⟨⟨p, test, action, looping⟩, _⟩⟩
  · obtain ⟨calls, limit, shallow⟩ := enters.deeper
    have less : next.machine.depthLimit - next.machine.calls.length <
        now.machine.depthLimit - now.machine.calls.length := by
      rw [calls, limit, List.length_cons]
      omega
    exact ends_of_keeps free next later
  · have room : next.machine.depthLimit - next.machine.calls.length =
        now.machine.depthLimit - now.machine.calls.length := by
      rw [same.calls, same.limit]
    have smaller := sizeOf_part part
    exact ends_of_keeps free next later
  · obtain ⟨code, runs, inside⟩ := keeps.node
    have loop := free code runs now.node inside
    rw [looping] at loop
    exact absurd trivial loop
termination_by (now.machine.depthLimit - now.machine.calls.length, sizeOf now.node)
decreasing_by
  · exact .left _ _ less
  · rw [room]
    exact .right _ smaller

/-- A program ends, with a value or with an error, if there is no loop in the code that it can run. -/
theorem loop_free_program_ends (m : Machine) (functions : List Definition) (main : Node)
    (free : ∀ code, Runnable m functions main code → LoopFree code) :
    ∃ enough outcome after, ∀ fuel, enough ≤ fuel → m.execute fuel functions main = some (outcome, after) := by
  obtain ⟨enough, ends⟩ := ends_of_keeps free _ (keeps_launch m functions main)
  obtain ⟨⟨outcome, after⟩, ran⟩ := ends enough (Nat.le_refl _)
  have evaluated : eval enough main (launch m functions) = some (outcome, after) := ran
  have ended := execute_eq m enough functions main
  rw [evaluated, Option.map_some] at ended
  exact ⟨enough, _, after, fun fuel le => execute_grows le ended⟩

end Ending

/-- `func f(g) { return g(f(g)) }`. -/
def sampleTangle : Definition :=
  ⟨"f", ["g"], .block {} [.ret {} (.call {} (.get {} "g") [.call {} (.get {} "f") [.get {} "g"]])]⟩

def sampleEarlier : Definition := ⟨"k", ["g"], .block {} [.ret {} (.call {} (.get {} "g") [.get {} "g"])]⟩

def sampleMachine : Machine := { Machine.new 3 {} "" with definitions := #[sampleEarlier] }

/-- A call of the earlier function, which stands there as a constant, with a function as its argument. -/
def sampleMain : Node := .block {} [.call {} (.const {} (.function ⟨"k", 0⟩)) [.get {} "f"]]

def Tame (node : Node) : Prop := ¬IsLoop node ∧ ∀ p f, node = .const p (.function f) → f = ⟨"k", 0⟩

private theorem sampleMain_tame {code : Node} (runs : Runnable sampleMachine [sampleTangle] sampleMain code) :
    Throughout Tame code := by
  induction runs with
  | main => simp [sampleMain, throughout_iff, parts, Tame, IsLoop]
  | declared member =>
    cases List.mem_singleton.mp member
    simp [sampleTangle, throughout_iff, parts, Tame, IsLoop]
  | constant _ stands ih =>
    cases (ih _ stands).2 _ _ rfl
    simp [launch, Machine.definition, Machine.defineAll, Machine.define, sampleMachine, sampleEarlier, throughout_iff,
      parts, Tame, IsLoop]

/-- Functions that call each other and themselves without end, by name and as values, come to an end all the same. -/
theorem sampleMain_ends :
    (∀ code, Runnable sampleMachine [sampleTangle] sampleMain code → LoopFree code) ∧
    Runnable sampleMachine [sampleTangle] sampleMain sampleEarlier.body ∧
    ∃ enough outcome after, ∀ fuel, enough ≤ fuel →
      sampleMachine.execute fuel [sampleTangle] sampleMain = some (outcome, after) := by
  have free : ∀ code, Runnable sampleMachine [sampleTangle] sampleMain code → LoopFree code :=
    fun code runs node inside => (sampleMain_tame runs node inside).1
  refine ⟨free, ?_, loop_free_program_ends sampleMachine [sampleTangle] sampleMain free⟩
  have stands : Contains sampleMain (.const {} (.function ⟨"k", 0⟩)) :=
    .head (b := .call {} (.const {} (.function ⟨"k", 0⟩)) [.get {} "f"]) List.mem_cons_self
      (.single List.mem_cons_self)
  exact .constant .main stands

end Scriptlet.Proofs.LoopFreeTermination
