import Scriptlet.Proofs.ConcreteSyntax
import Scriptlet.Proofs.ProgramRendering

/-! The names and constants of a program, from left to right. Apart from those that an operator, an
assignment that computes or a return without a value brings along, they are the ones of the tokens. -/

namespace Scriptlet

inductive Leaf where
  | name (text : String)
  | value (content : Value)
  deriving DecidableEq

namespace Node

mutual

def leaves : Node → List Leaf
  | absent => []
  | unknown _ => []
  | block _ statements => allLeaves statements
  | branch _ condition action otherwise => condition.leaves ++ (action.leaves ++ otherwise.leaves)
  | loop _ condition action => condition.leaves ++ action.leaves
  | .ret _ value => value.leaves
  | set _ name value => .name name :: value.leaves
  | get _ name => [.name name]
  | const _ value => [.value value]
  | call _ function arguments => function.leaves ++ allLeaves arguments
  | member _ base name => base.leaves ++ [.name name]

def allLeaves : List Node → List Leaf
  | [] => []
  | node :: nodes => node.leaves ++ allLeaves nodes

end

end Node

end Scriptlet

namespace Scriptlet.Proofs.ConcreteSyntax
open Grammar GrammarSegments GrammarShapes GrammarCuts GrammarReading ProgramRendering

/-- A leaf of a tree, which has a token of its own or is there without one. -/
inductive Item where
  | written (leaf : Leaf)
  | implied (leaf : Leaf)

def Item.leaf : Item → Leaf
  | .written leaf => leaf
  | .implied leaf => leaf

def Item.written? : Item → Option Leaf
  | .written leaf => some leaf
  | .implied _ => none

mutual

/-- The leaves of a phrase. The function behind an operator has no token, nor has the old value in an
assignment that computes, nor what is returned where no value is given. -/
def Phrase.items : Phrase → List Item
  | .name t _ => [.written (.name t.lexeme)]
  | .constant _ value _ => [.written (.value value)]
  | .group _ inner _ _ _ => inner.items
  | .block _ body _ _ _ => body.items
  | .stop _ _ => [.implied (.value .empty)]
  | .ret _ value _ => value.items
  | .branch _ condition action _ => condition.items ++ action.items
  | .choice _ condition action _ otherwise _ _ => condition.items ++ (action.items ++ otherwise.items)
  | .loop _ condition action _ => condition.items ++ action.items
  | .unary _ function operand _ => .implied (.name function) :: operand.items
  | .binary left operator right _ =>
    .implied (.name (operatorFunction operator.kind)) :: (left.items ++ right.items)
  | .assign target _ value _ _ => .written (.name target.lexeme) :: value.items
  | .update target _ function value _ _ =>
    .written (.name target.lexeme) :: .implied (.name function) :: .implied (.name target.lexeme) :: value.items
  | .invoke callee _ _ _ _ => callee.items
  | .call callee _ inputs _ _ _ => callee.items ++ inputs.items
  | .member base _ field _ _ => base.items ++ [.written (.name field.lexeme)]

def Body.items : Body → List Item
  | .nil => []
  | .cons first others => first.items ++ others.items

def Inputs.items : Inputs → List Item
  | .one last => last.items
  | .more first _ others _ => first.items ++ others.items

end

mutual

theorem Phrase.leaves_eq (phrase : Phrase) : phrase.items.map Item.leaf = phrase.node.leaves := by
  match phrase with
  | .name .. => rfl
  | .constant .. => rfl
  | .group _ inner _ _ _ => exact inner.leaves_eq
  | .block _ body _ _ _ => exact body.leaves_eq
  | .stop .. => rfl
  | .ret _ value _ => exact value.leaves_eq
  | .branch _ condition action _ =>
    simp only [Phrase.items, Phrase.node, Node.leaves, List.map_append, condition.leaves_eq, action.leaves_eq, List.append_nil]
  | .choice _ condition action _ otherwise _ _ =>
    simp only [Phrase.items, Phrase.node, Node.leaves, List.map_append, condition.leaves_eq, action.leaves_eq, otherwise.leaves_eq]
  | .loop _ condition action _ =>
    simp only [Phrase.items, Phrase.node, Node.leaves, List.map_append, condition.leaves_eq, action.leaves_eq]
  | .unary _ _ operand _ =>
    simp [Phrase.items, Phrase.node, operatorCall, Node.leaves, Node.allLeaves, Item.leaf, operand.leaves_eq]
  | .binary left _ right _ =>
    simp [Phrase.items, Phrase.node, operatorCall, Node.leaves, Node.allLeaves, Item.leaf, left.leaves_eq, right.leaves_eq]
  | .assign _ _ value _ _ => simp only [Phrase.items, Phrase.node, Node.leaves, List.map_cons, Item.leaf, value.leaves_eq]
  | .update _ _ _ value _ _ =>
    simp [Phrase.items, Phrase.node, operatorCall, Node.leaves, Node.allLeaves, Item.leaf, value.leaves_eq]
  | .invoke callee _ _ _ _ => simp only [Phrase.items, Phrase.node, Node.leaves, Node.allLeaves, callee.leaves_eq, List.append_nil]
  | .call callee _ inputs _ _ _ =>
    simp only [Phrase.items, Phrase.node, Node.leaves, List.map_append, callee.leaves_eq, inputs.leaves_eq]
  | .member base _ _ _ _ =>
    simp only [Phrase.items, Phrase.node, Node.leaves, List.map_append, base.leaves_eq, List.map_cons, List.map_nil, Item.leaf]

theorem Body.leaves_eq (body : Body) : body.items.map Item.leaf = Node.allLeaves body.nodes := by
  match body with
  | .nil => rfl
  | .cons first others =>
    simp only [Body.items, Body.nodes, Node.allLeaves, List.map_append, first.leaves_eq, others.leaves_eq]

theorem Inputs.leaves_eq (inputs : Inputs) : inputs.items.map Item.leaf = Node.allLeaves inputs.nodes := by
  match inputs with
  | .one last => simp only [Inputs.items, Inputs.nodes, Node.allLeaves, last.leaves_eq, List.append_nil]
  | .more first _ others _ =>
    simp only [Inputs.items, Inputs.nodes, Node.allLeaves, List.map_append, first.leaves_eq, others.leaves_eq]

end

/-- The leaf that a token stands for, if it stands for one. -/
def leaf? (t : Token) : Option Leaf :=
  if t.kind = .ident then some (.name t.lexeme) else (literal? t).map .value

/-- The leaves that the names, numbers, strings and truth values among the tokens stand for. -/
def said (ts : List Token) : List (Option Leaf) := (ts.filter fun t => leafKinds.contains t.kind).map leaf?

/-- The leaves that have tokens. -/
def spoken (items : List Item) : List (Option Leaf) := (items.filterMap Item.written?).map some

section Said
variable {t : Token} {ts : List Token}

private theorem said_append (first second : List Token) : said (first ++ second) = said first ++ said second := by
  simp only [said, List.filter_append, List.map_append]

private theorem spoken_append (first second : List Item) :
    spoken (first ++ second) = spoken first ++ spoken second := by
  simp only [spoken, List.filterMap_append, List.map_append]

private theorem spoken_written (leaf : Leaf) (items : List Item) :
    spoken (.written leaf :: items) = some leaf :: spoken items := rfl

private theorem spoken_implied (leaf : Leaf) (items : List Item) : spoken (.implied leaf :: items) = spoken items := rfl

private theorem said_skip (kind : t.kind ∉ leafKinds) : said (t :: ts) = said ts := by
  rw [said, List.filter_cons_of_neg (by simpa using kind)]
  rfl

private theorem said_cons (kind : t.kind ∈ leafKinds) : said (t :: ts) = leaf? t :: said ts := by
  rw [said, List.filter_cons_of_pos (by simpa using kind)]
  rfl

private theorem said_name (named : t.kind = .ident) : said (t :: ts) = some (.name t.lexeme) :: said ts := by
  rw [said_cons (by rw [named]; decide), leaf?, if_pos named]

private theorem said_literal {value : Value} (meant : literal? t = some value) :
    said (t :: ts) = some (.value value) :: said ts := by
  have kind := literal_kind meant
  rw [said_cons kind.1, leaf?, if_neg kind.2, meant]
  rfl

end Said

mutual

theorem Phrase.said_eq (phrase : Phrase) : said phrase.tokens = spoken phrase.items := by
  match phrase with
  | .name t named => exact said_name named
  | .constant t value meant => exact said_literal meant
  | .group first inner last opens closes =>
    rw [Phrase.tokens, said_skip (by rw [opens]; decide), said_append, said_skip (by rw [closes]; decide),
      inner.said_eq]
    exact List.append_nil _
  | .block first body last opens closes =>
    rw [Phrase.tokens, said_skip (by rw [opens]; decide), said_append, said_skip (by rw [closes]; decide),
      body.said_eq]
    exact List.append_nil _
  | .stop word returns => exact said_skip (by rw [returns]; decide)
  | .ret word value returns =>
    rw [Phrase.tokens, said_skip (by rw [returns]; decide), value.said_eq, Phrase.items]
  | .branch word condition action branches =>
    rw [Phrase.tokens, said_skip (by rw [branches]; decide), said_append, condition.said_eq, action.said_eq,
      Phrase.items, spoken_append]
  | .choice word condition action opposite otherwise branches turns =>
    rw [Phrase.tokens, said_skip (by rw [branches]; decide), said_append, said_append,
      said_skip (by rw [turns]; decide), condition.said_eq, action.said_eq, otherwise.said_eq,
      Phrase.items, spoken_append, spoken_append]
  | .loop word condition action loops =>
    rw [Phrase.tokens, said_skip (by rw [loops]; decide), said_append, condition.said_eq, action.said_eq,
      Phrase.items, spoken_append]
  | .unary operator function operand known =>
    rw [Phrase.tokens, said_skip (operator_plain (operator_of_unary known)).1, operand.said_eq, Phrase.items, spoken_implied]
  | .binary left operator right known =>
    rw [Phrase.tokens, said_append, said_skip (operator_plain (operator_of_binary known)).1, left.said_eq, right.said_eq,
      Phrase.items, spoken_implied, spoken_append]
  | .assign target operator value named assigns =>
    rw [Phrase.tokens, said_name named, said_skip (by rw [assigns]; decide), value.said_eq, Phrase.items,
      spoken_written]
  | .update target operator function value named known =>
    rw [Phrase.tokens, said_name named, said_skip (operator_plain (operator_of_update known)).1, value.said_eq, Phrase.items,
      spoken_written, spoken_implied, spoken_implied]
  | .invoke callee first last opens closes =>
    rw [Phrase.tokens, said_append, said_skip (by rw [opens]; decide), said_skip (by rw [closes]; decide),
      callee.said_eq, Phrase.items]
    exact List.append_nil _
  | .call callee first inputs last opens closes =>
    rw [Phrase.tokens, said_append, said_skip (by rw [opens]; decide), said_append,
      said_skip (by rw [closes]; decide), callee.said_eq, inputs.said_eq, Phrase.items, spoken_append]
    exact congrArg _ (List.append_nil _)
  | .member base dot field dotted named =>
    rw [Phrase.tokens, said_append, said_skip (by rw [dotted]; decide), said_name named, base.said_eq,
      Phrase.items, spoken_append]
    rfl

theorem Body.said_eq (body : Body) : said body.tokens = spoken body.items := by
  match body with
  | .nil => rfl
  | .cons first others =>
    rw [Body.tokens, said_append, first.said_eq, others.said_eq, Body.items, spoken_append]

theorem Inputs.said_eq (inputs : Inputs) : said inputs.tokens = spoken inputs.items := by
  match inputs with
  | .one last => rw [Inputs.tokens, last.said_eq, Inputs.items]
  | .more first comma others divides =>
    rw [Inputs.tokens, said_append, said_skip (by rw [divides]; decide), first.said_eq, others.said_eq,
      Inputs.items, spoken_append]

end

/-- Without declarations, the statements of a fragment are all of its tokens. -/
theorem body_of_fragment {ts : List Token} {program : Program} (bare : ∀ t ∈ ts, t.kind ≠ .funcWord)
    (read : parseFragment ts = .ok program) : WrittenBody ts program.statements := by
  obtain ⟨rest, hoisted, parsed⟩ := statements_of_fragment read
  have whole := @hoist_bare ts [] [] [] bare rfl
  rw [List.append_nil, hoisted] at whole
  obtain ⟨_, rfl⟩ := Prod.mk.inj (Except.ok.inj whole)
  exact writtenBody_of_parse parsed

/-- Reading loses, repeats and moves no token. A fragment without declarations was written as phrases, with
all of its tokens in their order. The leaves of the program are those of the phrases, and what remains of
them without the implied ones is what the names, numbers, strings and truth values among the tokens say. -/
theorem fragment_keeps_leaves {ts : List Token} {program : Program} (bare : ∀ t ∈ ts, t.kind ≠ .funcWord)
    (read : parseFragment ts = .ok program) :
    ∃ body : Body, body.tokens = ts ∧ body.nodes = program.statements ∧
      body.items.map Item.leaf = program.main.leaves ∧
      (body.items.filterMap Item.written?).map some =
        (ts.filter fun t => leafKinds.contains t.kind).map leaf? := by
  obtain ⟨body, rfl, meant⟩ := body_of_fragment bare read
  refine ⟨body, rfl, meant, ?_, body.said_eq.symm⟩
  rw [body.leaves_eq, meant, Program.main, Node.leaves]

/-- A call of `__add` by its name, which is added to a variable, and a return without a value. -/
def sampleUpdate : List Token :=
  [⟨.ident, "x", {}⟩, ⟨.plusAssign, "+=", {}⟩, ⟨.ident, "__add", {}⟩, ⟨.openParen, "(", {}⟩, ⟨.number, "1", {}⟩,
    ⟨.comma, ",", {}⟩, ⟨.ident, "y", {}⟩, ⟨.closeParen, ")", {}⟩, ⟨.returnWord, "return", {}⟩]

theorem sampleUpdate_keeps_leaves :
    ∃ program, parseFragment sampleUpdate = .ok program ∧
      program.main.leaves =
        [.name "x", .name "__add", .name "x", .name "__add", .value (.number (.ofInt 1)), .name "y", .value .empty] ∧
      ∃ body : Body, body.tokens = sampleUpdate ∧ body.nodes = program.statements ∧
        (body.items.filterMap Item.written?).map some =
          [some (.name "x"), some (.name "__add"), some (.value (.number (.ofInt 1))), some (.name "y")] := by
  have leaves : (parseFragment sampleUpdate).toOption.map (·.main.leaves) =
      some [.name "x", .name "__add", .name "x", .name "__add", .value (.number (.ofInt 1)), .name "y", .value .empty] := by
    decide +kernel
  cases read : parseFragment sampleUpdate with
  | error e =>
    rw [read] at leaves
    cases leaves
  | ok program =>
    rw [read] at leaves
    obtain ⟨body, tokens, nodes, _, written⟩ := fragment_keeps_leaves (by decide) read
    exact ⟨program, rfl, Option.some.inj leaves, body, tokens, nodes, written.trans (by decide +kernel)⟩

end Scriptlet.Proofs.ConcreteSyntax
