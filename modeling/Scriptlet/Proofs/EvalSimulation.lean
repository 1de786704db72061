import Scriptlet.Proofs.EvalTwins

/-! Two evaluations of one program, in step. The machines they run on need not be equal: a simulation says which
ones belong together, and it is enough that every single operation keeps them together. Then what the one
evaluation gives the other gives too. After some errors of the first nothing is asked of the second. -/

namespace Scriptlet.Proofs.EvalSimulation
open Eval StructuredReturn EvalChange EvalTwins

structure Simulation where
  related : Machine → Machine → Prop
  alike : RuntimeError → RuntimeError → Prop
  excused : RuntimeError → Prop
  returned : ∀ {m n}, related m n → m.returned = n.returned
  lookup : ∀ {m n}, related m n → ∀ name, m.lookup name = n.lookup name
  definition : ∀ {m n}, related m n → ∀ f, m.definition f = n.definition f
  refusal : ∀ {m n}, related m n → ∀ f args, refusal? m f args = refusal? n f args ∨
    ∃ fault, refusal? m f args = some fault ∧ ∀ position, excused (m.error position fault)
  error : ∀ {m n}, related m n → ∀ position fault, alike (m.error position fault) (n.error position fault)
  native : ∀ {m n}, related m n → ∀ (f : Native) args, (f.apply args m.sink).1 = (f.apply args n.sink).1 ∧
    related { m with sink := (f.apply args m.sink).2 } { n with sink := (f.apply args n.sink).2 }
  assign : ∀ {m n}, related m n → ∀ name value, related (m.assign name value) (n.assign name value)
  record : ∀ {m n}, related m n → ∀ value,
    related { m with returned := some value } { n with returned := some value }
  enterBlock : ∀ {m n}, related m n → related (enterBlock m) (enterBlock n)
  leaveBlock : ∀ {m n}, related m n → related (leaveBlock m) (leaveBlock n)
  beginCall : ∀ {m n}, related m n → ∀ d args, related (beginCall m d args) (beginCall n d args)
  endCall : ∀ {m n after final}, related m n → related after final → related (endCall m after) (endCall n final)

namespace Simulation

variable {α : Type} (s : Simulation)

inductive Answers : Except RuntimeError α × Machine → Option (Except RuntimeError α × Machine) → Prop where
  | value {v after final} (together : s.related after final) : Answers (.ok v, after) (some (.ok v, final))
  | error {e f after final} (alike : s.alike e f) (together : s.related after final) :
      Answers (.error e, after) (some (.error f, final))
  | excused {e after reply} (excused : s.excused e) : Answers (.error e, after) reply

/-- Where the first computation ends, the second ends with the same value or a like error. -/
def Follows (first second : Eval α) : Prop :=
  ∀ m n, s.related m n → ∀ result, first m = some result → s.Answers result (second n)

/-- Programs and values that are equal, on machines that belong together. -/
def twins : Twins where
  place := Eq
  ref := Eq
  related := s.related
  alike := s.alike
  excused := s.excused
  nowhere := same_nowhere
  returned together := by
    rw [s.returned together]
    exact optionRel_refl (sameValue_refl fun _ => rfl) _
  lookup together name := by
    rw [s.lookup together]
    exact optionRel_refl (sameValue_refl fun _ => rfl) _
  body together same := by
    subst same
    rw [s.definition together]
    exact sameNode_refl (fun _ => rfl) (fun _ => rfl) _
  refusal together same given := by
    subst same
    rw [← sameValues_eq given]
    exact s.refusal together _ _
  error together here same := by
    subst here
    rw [← sameFault_eq same]
    exact s.error together _ _
  native together given f := by
    rw [← sameValues_eq given]
    obtain ⟨same, after⟩ := s.native together f _
    rw [← same]
    exact ⟨sameResult_refl (fun _ => .same _) (sameValue_refl fun _ => rfl) _, after⟩
  assign together same name := by
    rw [← sameValue_eq same]
    exact s.assign together name _
  record together same := by
    rw [← sameValue_eq same]
    exact s.record together _
  enterBlock := s.enterBlock
  leaveBlock := s.leaveBlock
  beginCall together same given := by
    subst same
    rw [← sameValues_eq given, ← s.definition together]
    exact s.beginCall together _ _
  endCall := s.endCall

variable {s}

theorem follows_eval (fuel : Nat) (node : Node) : s.Follows (eval fuel node) (eval fuel node) := by
  intro m n together result ran
  have same : s.twins.Node node node := sameNode_refl (fun _ => rfl) (fun _ => rfl) node
  have answer := (s.twins.alongside fuel).node node node same m n together result ran
  generalize eval fuel node n = reply at answer
  cases answer with
  | value same together =>
    rw [sameValue_eq same]
    exact .value together
  | error alike together => exact .error alike together
  | excused excused => exact .excused excused

end Simulation

end Scriptlet.Proofs.EvalSimulation
