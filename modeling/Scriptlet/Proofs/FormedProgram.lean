import Scriptlet.Proofs.AcceptedNesting
import Scriptlet.Proofs.NumberInvariant

/-! What a program consists of that was read from a text. Every node has a meaning and all of its parts, except that
an `if` may be without an `else`; and no constant is a function. -/

namespace Scriptlet.Proofs.FormedProgram
open Grammar GrammarSegments ConcreteSyntax NumberInvariant

/-- A value that can be written as a constant, or that a `return` without one stands for. -/
inductive LiteralValue : Value → Prop where
  | empty : LiteralValue .empty
  | bool (b : Bool) : LiteralValue (.bool b)
  | string (s : String) : LiteralValue (.string s)
  | number {n : Number} (normal : Normal n) : LiteralValue (.number n)

inductive Formed : Node → Prop where
  | get (p : Position) (name : String) : Formed (.get p name)
  | const {p v} (literal : LiteralValue v) : Formed (.const p v)
  | set {p name value} (given : Formed value) : Formed (.set p name value)
  | ret {p value} (given : Formed value) : Formed (.ret p value)
  | block {p nodes} (statements : ∀ node ∈ nodes, Formed node) : Formed (.block p nodes)
  | branch {p test action} (condition : Formed test) (holds : Formed action) : Formed (.branch p test action .absent)
  | choice {p test action otherwise} (condition : Formed test) (holds : Formed action) (fails : Formed otherwise) :
      Formed (.branch p test action otherwise)
  | loop {p test action} (condition : Formed test) (holds : Formed action) : Formed (.loop p test action)
  | call {p function arguments} (callee : Formed function) (given : ∀ node ∈ arguments, Formed node) :
      Formed (.call p function arguments)
  | member {p base name} (whole : Formed base) : Formed (.member p base name)

theorem Formed.present {node : Node} (formed : Formed node) : node.isAbsent = false := by
  cases formed <;> rfl

private theorem literalValue_of_token {t : Token} {value : Value} (meant : literal? t = some value) :
    LiteralValue value := by
  rw [literal?] at meant
  split at meant
  · obtain ⟨n, read, rfl⟩ := Option.map_eq_some_iff.mp meant
    exact .number (parse_normal read)
  · cases meant
    exact .string _
  · cases meant
    exact .bool true
  · cases meant
    exact .bool false
  · cases meant

private theorem formed_operator (operator : Token) (function : String) {left right : Node} (first : Formed left)
    (second : Formed right) : Formed (operatorCall operator function [left, right]) :=
  .call (.get _ _) (List.forall_mem_cons.mpr ⟨first, List.forall_mem_singleton.mpr second⟩)

mutual

theorem formed_phrase (phrase : Phrase) : Formed phrase.node := by
  match phrase with
  | .name t _ => exact .get _ _
  | .constant t value meant => exact .const (literalValue_of_token meant)
  | .group _ inner _ _ _ => exact formed_phrase inner
  | .block _ body _ _ _ => exact .block (formed_body body)
  | .stop _ _ => exact .ret (.const .empty)
  | .ret _ value _ => exact .ret (formed_phrase value)
  | .branch _ condition action _ => exact .branch (formed_phrase condition) (formed_phrase action)
  | .choice _ condition action _ otherwise _ _ =>
    exact .choice (formed_phrase condition) (formed_phrase action) (formed_phrase otherwise)
  | .loop _ condition action _ => exact .loop (formed_phrase condition) (formed_phrase action)
  | .unary _ _ operand _ => exact .call (.get _ _) (List.forall_mem_singleton.mpr (formed_phrase operand))
  | .binary left _ right _ => exact formed_operator _ _ (formed_phrase left) (formed_phrase right)
  | .assign _ _ value _ _ => exact .set (formed_phrase value)
  | .update _ _ _ value _ _ => exact .set (formed_operator _ _ (.get _ _) (formed_phrase value))
  | .invoke callee _ _ _ _ => exact .call (formed_phrase callee) nofun
  | .call callee _ inputs _ _ _ => exact .call (formed_phrase callee) (formed_inputs inputs)
  | .member base _ _ _ _ => exact .member (formed_phrase base)

theorem formed_body (body : Body) : ∀ node ∈ body.nodes, Formed node := by
  match body with
  | .nil => exact nofun
  | .cons first others => exact List.forall_mem_cons.mpr ⟨formed_phrase first, formed_body others⟩

theorem formed_inputs (inputs : Inputs) : ∀ node ∈ inputs.nodes, Formed node := by
  match inputs with
  | .one last => exact List.forall_mem_singleton.mpr (formed_phrase last)
  | .more first _ others _ => exact List.forall_mem_cons.mpr ⟨formed_phrase first, formed_inputs others⟩

end

section Programs
variable {ts rest : List Token} {program : Program} {text : String}

private theorem formed_of_declaration {word : Token} {definition : Definition}
    (found : declaration word ts = .ok (definition, rest)) : Formed definition.body := by
  obtain ⟨_, _, _, _, body, length, _, _, _, _, parsed, _⟩ := declaration_parts found
  obtain ⟨phrase, _, meant⟩ := written_of_parse parsed
  rw [← meant]
  exact formed_phrase phrase

theorem formed_of_hoist {functions : List Definition} (hoisted : hoist ts = .ok (functions, rest)) :
    ∀ d ∈ functions, Formed d.body := by
  induction ts generalizing functions rest with
  | nil =>
    cases hoisted
    exact nofun
  | cons t ts ih =>
    obtain ⟨⟨later, middle⟩, found, hoisted⟩ := bind_eq_ok hoisted
    dsimp only at hoisted
    split at hoisted
    · obtain ⟨⟨definition, after⟩, declared, done⟩ := bind_eq_ok hoisted
      cases done
      unfold addDefinition
      split
      · exact ih found
      · exact List.forall_mem_cons.mpr ⟨formed_of_declaration declared, ih found⟩
    · cases hoisted
      exact ih found

/-- What can be read as a program or as a fragment, by the tokens of the text. -/
theorem readSource_ok {read : List Token → Except ParseError Program} (accepted : readSource read text = .ok program) :
    ∃ ts, tokenize text = .ok ts ∧ read ts = .ok program := by
  unfold readSource at accepted
  split at accepted
  · cases accepted
  next ts scanned =>
    cases found : read ts with
    | error e =>
      rw [found] at accepted
      cases accepted
    | ok _ =>
      rw [found] at accepted
      cases accepted
      exact ⟨ts, scanned, found⟩

theorem ofFragment_of_tokens {ts : List Token} (scanned : tokenize text = .ok ts)
    (read : parseFragment ts = .ok program) : Program.ofFragment text = .ok program := by
  rw [Program.ofFragment, readSource, scanned]
  dsimp only
  rw [read]
  rfl

theorem ofFragment_of_ofSource (read : Program.ofSource text = .ok program) :
    Program.ofFragment text = .ok program := by
  obtain ⟨ts, scanned, parsed⟩ := readSource_ok read
  exact ofFragment_of_tokens scanned (fragment_of_program parsed)

/-- The statements and the functions of a text are formed. -/
theorem formed_of_text (read : Program.ofFragment text = .ok program) :
    (∀ node ∈ program.statements, Formed node) ∧ ∀ d ∈ program.functions, Formed d.body := by
  obtain ⟨ts, _, parsed⟩ := readSource_ok read
  obtain ⟨rest, hoisted, statements⟩ := statements_of_fragment parsed
  obtain ⟨body, _, meant⟩ := writtenBody_of_parse statements
  rw [← meant]
  exact ⟨formed_body body, formed_of_hoist hoisted⟩

end Programs

end Scriptlet.Proofs.FormedProgram
