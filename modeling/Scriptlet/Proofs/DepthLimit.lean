import Mathlib.Control.Monad.Basic
import Scriptlet.Proofs.EvalSimulation
import Scriptlet.Proofs.ScopeView

/-! The depth limit. It is asked for at one place, where a function is called, and it decides nothing but whether
the call overflows. A run that does not overflow is therefore the same under every higher limit. A limit that is
not given stands for a fixed one, which is not the lowest but a high one. -/

namespace Scriptlet.Proofs.DepthLimit
open Eval EvalFuel StructuredReturn EvalChange EvalSimulation ScopeView

def IsOverflow (e : RuntimeError) : Prop := e.fault.kind = "stack overflow"

/-- The same machine with a limit at least as high. -/
def Raised (m n : Machine) : Prop := ∃ limit, m.depthLimit ≤ limit ∧ n = { m with depthLimit := limit }

theorem Raised.refusal {m n : Machine} (raised : Raised m n) (f : FunctionRef) (args : List Value) :
    refusal? m f args = refusal? n f args ∨
      ∃ fault, refusal? m f args = some fault ∧ ∀ position, IsOverflow (m.error position fault) := by
  obtain ⟨limit, higher, rfl⟩ := raised
  by_cases fits : args.length = (m.definition f).params.length
  · by_cases deep : m.depthLimit ≤ m.calls.length
    · refine Or.inr ⟨.overflow m.depthLimit (m.definition f).name, ?_, fun _ => rfl⟩
      rw [refusal?, if_neg (not_not_intro fits), if_pos deep]
    · have shallow : ¬limit ≤ m.calls.length := by omega
      left
      simp only [refusal?, if_neg deep, if_neg shallow]
      rfl
  · left
    rw [refusal?, refusal?, if_pos fits]
    exact (if_pos fits).symm

def raising : Simulation where
  related := Raised
  alike := Eq
  excused := IsOverflow
  returned := by
    rintro m _ ⟨limit, _, rfl⟩
    rfl
  lookup := by
    rintro m _ ⟨limit, _, rfl⟩ name
    rfl
  definition := by
    rintro m _ ⟨limit, _, rfl⟩ f
    rfl
  refusal := Raised.refusal
  error := by
    rintro m _ ⟨limit, _, rfl⟩ position fault
    rfl
  native := by
    rintro m _ ⟨limit, higher, rfl⟩ f args
    exact ⟨rfl, limit, higher, rfl⟩
  assign := by
    rintro m _ ⟨limit, higher, rfl⟩ name value
    refine ⟨limit, ?_, ?_⟩
    · rw [assign_eq]
      exact higher
    · rw [assign_eq, assign_eq]
  record := by
    rintro m _ ⟨limit, higher, rfl⟩ value
    exact ⟨limit, higher, rfl⟩
  enterBlock := by
    rintro m _ ⟨limit, higher, rfl⟩
    exact ⟨limit, higher, rfl⟩
  leaveBlock := by
    rintro m _ ⟨limit, higher, rfl⟩
    exact ⟨limit, higher, rfl⟩
  beginCall := by
    rintro m _ ⟨limit, higher, rfl⟩ d args
    exact ⟨limit, higher, rfl⟩
  endCall := by
    rintro m _ after _ ⟨_, _, rfl⟩ ⟨limit, higher, rfl⟩
    exact ⟨limit, higher, rfl⟩

theorem Raised.define {m n : Machine} (raised : Raised m n) (functions : List Definition) :
    Raised (m.defineAll functions) (n.defineAll functions) := by
  induction functions generalizing m n with
  | nil => exact raised
  | cons d functions ih =>
    apply ih
    obtain ⟨limit, higher, rfl⟩ := raised
    exact ⟨limit, higher, rfl⟩

theorem Raised.launch {m n : Machine} (raised : Raised m n) (functions : List Definition) :
    Raised (launch m functions) (launch n functions) := by
  apply Raised.define
  obtain ⟨limit, higher, rfl⟩ := raised
  exact ⟨limit, higher, rfl⟩

theorem Raised.new {d limit : Int} {sink : Sink} {file : String}
    (higher : (Machine.new d sink file).depthLimit ≤ (Machine.new limit sink file).depthLimit) (text : String) :
    Raised ((Machine.new d sink file).setSource file text) ((Machine.new limit sink file).setSource file text) :=
  ⟨_, higher, rfl⟩

/-- A program that ends without an overflow ends in the same way on a machine with a higher limit, and prints
the same. -/
theorem Raised.execute {m n after : Machine} {fuel : Nat} {functions : List Definition} {main : Node}
    {outcome : Except RuntimeError Value} (raised : Raised m n)
    (ended : m.execute fuel functions main = some (outcome, after))
    (fits : ∀ e, outcome = .error e → ¬IsOverflow e) :
    ∃ final, n.execute fuel functions main = some (outcome, final) ∧ Raised after final := by
  rw [execute_eq] at ended ⊢
  obtain ⟨⟨result, after⟩, ran, done⟩ := Option.map_eq_some_iff.mp ended
  cases done
  have answer : raising.Answers (result, after) (eval fuel main (EvalChange.launch n functions)) :=
    Simulation.follows_eval fuel main _ _ (raised.launch functions) _ ran
  generalize eval fuel main (EvalChange.launch n functions) = reply at answer
  cases answer with
  | value together =>
    obtain ⟨limit, higher, rfl⟩ := together
    exact ⟨_, rfl, limit, higher, rfl⟩
  | error alike together =>
    cases alike
    exact ⟨_, rfl, together⟩
  | excused excused => exact absurd excused (fits _ rfl)

/-- Raising the limit that is in force changes no run that did not overflow. A limit of zero or less puts the default
one in force. -/
theorem execute_under_higher_limit (functions : List Definition) (main : Node) (d limit : Int) (sink : Sink)
    (file text : String)
    (higher : (Machine.new d sink file).depthLimit ≤ (Machine.new limit sink file).depthLimit) (fuel : Nat)
    (outcome : Except RuntimeError Value) (after : Machine)
    (ended : ((Machine.new d sink file).setSource file text).execute fuel functions main = some (outcome, after))
    (fits : ∀ e, outcome = .error e → e.fault.kind ≠ "stack overflow") :
    ∃ final, ((Machine.new limit sink file).setSource file text).execute fuel functions main = some (outcome, final) ∧
      final.sink = after.sink := by
  obtain ⟨final, ran, _, _, rfl⟩ := (Raised.new higher text).execute ended fits
  exact ⟨_, ran, rfl⟩

/-- `func f() { return g() }` and `func g() { return x }`. -/
def sampleChain : List Definition :=
  [⟨"f", [], .block ⟨1, 10⟩ [.ret ⟨1, 12⟩ (.call ⟨1, 19⟩ (.get ⟨1, 19⟩ "g") [])]⟩,
    ⟨"g", [], .block ⟨2, 10⟩ [.ret ⟨2, 12⟩ (.get ⟨2, 19⟩ "x")]⟩]

def sampleStart : Node := .block ⟨3, 1⟩ [.call ⟨3, 1⟩ (.get ⟨3, 1⟩ "f") []]

theorem sampleChain_fails_alike :
    ∃ e after final,
      ((Machine.new 2 {} "").setSource "" "").execute 12 sampleChain sampleStart = some (.error e, after) ∧
      e.stack = ["g", "f"] ∧ e.fault = .unknownVariable "x" ∧
      ((Machine.new (-1) {} "").setSource "" "").execute 12 sampleChain sampleStart = some (.error e, final) := by
  have ran : (((Machine.new 2 {} "").setSource "" "").execute 12 sampleChain sampleStart).map Prod.fst =
      some (.error ⟨.unknownVariable "x", ⟨2, 19⟩, "", "", ["g", "f"]⟩) := by
    decide +kernel
  obtain ⟨⟨_, after⟩, ended, rfl⟩ := Option.map_eq_some_iff.mp ran
  obtain ⟨final, again, _⟩ := execute_under_higher_limit sampleChain sampleStart 2 (-1) {} "" "" (by decide) 12 _
    after ended (by rintro e ⟨⟩; decide)
  exact ⟨_, after, final, ended, rfl, rfl, again⟩

def quietChain : List Definition :=
  [⟨"f", [], .block ⟨1, 10⟩ [.ret ⟨1, 12⟩ (.call ⟨1, 19⟩ (.get ⟨1, 19⟩ "g") [])]⟩,
    ⟨"g", [], .block ⟨2, 10⟩ [.ret ⟨2, 12⟩ (.const ⟨2, 12⟩ .empty)]⟩]

/-- A limit of zero lets two calls pass that a limit of one does not: to go from zero to one is to lower the limit. -/
theorem zero_is_no_low_limit :
    ¬∀ (functions : List Definition) (main : Node) (d limit : Int) (sink : Sink) (file : String) (fuel : Nat)
      (outcome : Except RuntimeError Value) (after : Machine), d ≤ limit →
      (Machine.new d sink file).execute fuel functions main = some (outcome, after) →
      (∀ e, outcome = .error e → e.fault.kind ≠ "stack overflow") →
      ∃ more final, (Machine.new limit sink file).execute more functions main = some (outcome, final) := by
  intro raising
  have ran : ((Machine.new 0 {} "").execute 12 quietChain sampleStart).map Prod.fst = some (.ok .empty) := by
    decide +kernel
  have overflown : ((Machine.new 1 {} "").execute 12 quietChain sampleStart).map Prod.fst =
      some (.error ⟨.overflow 1 "g", ⟨1, 19⟩, "", "", ["f"]⟩) := by
    decide +kernel
  obtain ⟨⟨_, after⟩, ended, rfl⟩ := Option.map_eq_some_iff.mp ran
  obtain ⟨⟨_, other⟩, failed, rfl⟩ := Option.map_eq_some_iff.mp overflown
  obtain ⟨more, final, again⟩ := raising quietChain sampleStart 0 1 {} "" 12 _ after (by decide) ended
    (by rintro e ⟨⟩)
  have larger := execute_grows (Nat.le_max_left 12 more) failed
  cases larger.symm.trans (execute_grows (Nat.le_max_right 12 more) again)

end Scriptlet.Proofs.DepthLimit
