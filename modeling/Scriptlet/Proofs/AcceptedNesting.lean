import Scriptlet.Proofs.ConcreteSyntax

/-! Whatever is read has nested brackets. None of the rules checks this: one looks for parentheses only, one
for braces only, and those that look for operators count both apart. But what they accept was written as a
phrase, and the brackets of a phrase are nested. Declarations are taken out before the rest is read, and
taking them out hides no bracket. -/

namespace Scriptlet.Proofs.ConcreteSyntax
open Grammar GrammarNesting GrammarSegments GrammarShapes GrammarCuts GrammarReading

variable {t : Token} {ts rest : List Token}

private theorem leaf_plain (kind : t.kind ∈ leafKinds) : ¬IsBracket t.kind := by
  have all : ∀ kind ∈ leafKinds, ¬IsBracket kind := by decide
  exact all _ kind

private theorem nested_operator (after : Nested rest) (operator : t.kind ∈ operatorKinds) : Nested (t :: rest) :=
  .plain (operator_plain operator).2 after

mutual

theorem Phrase.nested (phrase : Phrase) : Nested phrase.tokens := by
  match phrase with
  | .name t named => exact Nested.nil.cons named (by decide)
  | .constant t value meant => exact .single (leaf_plain (literal_kind meant).1)
  | .group first inner last opens closes => exact .wrap (Or.inl ⟨opens, closes⟩) inner.nested
  | .block first body last opens closes => exact .wrap (Or.inr ⟨opens, closes⟩) body.nested
  | .stop word returns => exact Nested.nil.cons returns (by decide)
  | .ret word value returns => exact value.nested.cons returns (by decide)
  | .branch word condition action branches =>
    exact (condition.nested.append action.nested).cons branches (by decide)
  | .choice word condition action opposite otherwise branches turns =>
    have after := otherwise.nested.cons turns (by decide)
    exact (condition.nested.append (action.nested.append after)).cons branches (by decide)
  | .loop word condition action loops =>
    exact (condition.nested.append action.nested).cons loops (by decide)
  | .unary operator function operand known => exact nested_operator operand.nested (operator_of_unary known)
  | .binary left operator right known =>
    exact left.nested.append (nested_operator right.nested (operator_of_binary known))
  | .assign target operator value named assigns =>
    exact (value.nested.cons assigns (by decide)).cons named (by decide)
  | .update target operator function value named known =>
    exact (nested_operator value.nested (operator_of_update known)).cons named (by decide)
  | .invoke callee first last opens closes =>
    exact callee.nested.append (.wrap (Or.inl ⟨opens, closes⟩) .nil)
  | .call callee first inputs last opens closes =>
    exact callee.nested.append (.wrap (Or.inl ⟨opens, closes⟩) inputs.nested)
  | .member base dot field dotted named =>
    exact base.nested.append ((Nested.nil.cons named (by decide)).cons dotted (by decide))

theorem Body.nested (body : Body) : Nested body.tokens := by
  match body with
  | .nil => exact .nil
  | .cons first others => exact first.nested.append others.nested

theorem Inputs.nested (inputs : Inputs) : Nested inputs.tokens := by
  match inputs with
  | .one last => exact last.nested
  | .more first comma others divides =>
    exact first.nested.append (others.nested.cons divides (by decide))

end

theorem nested_of_parse {node : Node} (parsed : parse ts = .ok node) : Nested ts := by
  obtain ⟨phrase, rfl, _⟩ := written_of_parse parsed
  exact phrase.nested

private theorem parameters_cut {word : Token} {name : String} {params : List String}
    (found : parameters word name ts = .ok (params, rest)) :
    ∃ inner last, ts = inner ++ last :: rest ∧ last.kind = .closeParen ∧ Nested inner := by
  fun_induction parameters word name ts generalizing params with
  | case1 => cases found
  | case2 => cases found
  | case3 => cases found
  | case4 => cases found
  | case5 param separator _ named divides ih =>
    obtain ⟨⟨others, _⟩, later, done⟩ := map_eq_ok found
    cases done
    obtain ⟨inner, last, rfl, closes, nested⟩ := ih later
    have behind : Nested (separator :: inner) := nested.cons divides (by decide)
    exact ⟨param :: separator :: inner, last, rfl, closes, behind.cons (Decidable.not_not.mp named) (by decide)⟩
  | case6 param last _ named closes =>
    cases found
    exact ⟨[param], last, rfl, closes, Nested.nil.cons (Decidable.not_not.mp named) (by decide)⟩
  | case7 => cases found

theorem parameterList_cut {word : Token} {name : String} {params : List String}
    (found : parameterList word name ts = .ok (params, rest)) :
    ∃ inner last, ts = inner ++ last :: rest ∧ last.kind = .closeParen ∧ Nested inner := by
  cases ts with
  | nil => exact parameters_cut found
  | cons first ts =>
    rw [parameterList] at found
    split at found
    next closes =>
      cases found
      exact ⟨[], first, rfl, closes, .nil⟩
    · exact parameters_cut found

/-- A declaration is a name, a list of parameters behind a parenthesis and a body, which is read on its own. -/
theorem declaration_parts {word : Token} {definition : Definition}
    (found : declaration word ts = .ok (definition, rest)) :
    ∃ name paren behind params body length, ts = name :: paren :: behind ∧ name.kind = .ident ∧
      paren.kind = .openParen ∧ parameterList word name.lexeme behind = .ok (params, body) ∧
      parse (body.take length) = .ok definition.body ∧ rest = body.drop length ∧ definition.name = name.lexeme := by
  unfold declaration at found
  split at found
  · cases found
  next name ts =>
    split at found
    · cases found
    next named =>
      split at found
      · cases found
      next paren behind =>
        split at found
        · cases found
        next opens =>
          obtain ⟨⟨params, body⟩, listed, bodied⟩ := bind_eq_ok found
          dsimp only at bodied
          split at bodied
          · cases bodied
          · obtain ⟨length, _, bodied⟩ := bind_eq_ok bodied
            obtain ⟨node, parsed, done⟩ := bind_eq_ok bodied
            cases done
            exact ⟨name, paren, behind, params, body, length, rfl, Decidable.not_not.mp named,
              Decidable.not_not.mp opens, listed, parsed, rfl, rfl⟩

/-- What a declaration takes of the tokens behind its word is nested. -/
theorem declaration_cut {word : Token} {definition : Definition}
    (found : declaration word ts = .ok (definition, rest)) : ∃ taken, ts = taken ++ rest ∧ Nested taken := by
  obtain ⟨name, paren, behind, params, body, length, rfl, named, opens, listed, parsed, rfl, _⟩ :=
    declaration_parts found
  obtain ⟨inner, last, rfl, closes, nested⟩ := parameterList_cut listed
  have header : Nested (paren :: (inner ++ [last])) := .wrap (Or.inl ⟨opens, closes⟩) nested
  have taken := (header.append (nested_of_parse parsed)).cons named (by decide)
  exact ⟨_, by simp, taken⟩

/-- Taking out the declarations takes nested stretches out. -/
theorem nested_of_hoist {functions : List Definition} {left before : List Token}
    (hoisted : hoist ts = .ok (functions, left)) (nested : Nested (before ++ left)) : Nested (before ++ ts) := by
  induction ts generalizing functions left before with
  | nil =>
    cases hoisted
    exact nested
  | cons t ts ih =>
    -- The declarations behind the token are out by then, and the token stands in front of what is left.
    have onward {middle : List Token} {found : List Definition} (later : hoist ts = .ok (found, middle))
        (nested : Nested (before ++ t :: middle)) : Nested (before ++ t :: ts) := by
      rw [List.append_cons] at nested ⊢
      exact ih later nested
    obtain ⟨⟨found, middle⟩, later, hoisted⟩ := bind_eq_ok hoisted
    dsimp only at hoisted
    split at hoisted
    next word =>
      obtain ⟨⟨definition, after⟩, declared, done⟩ := bind_eq_ok hoisted
      cases done
      obtain ⟨taken, rfl, inside⟩ := declaration_cut declared
      exact onward later (nested.insert (inside.cons word (by decide)))
    · cases hoisted
      exact onward later nested

private theorem nested_of_fragment {program : Program} (read : parseFragment ts = .ok program) : Nested ts := by
  obtain ⟨rest, hoisted, parsed⟩ := statements_of_fragment read
  obtain ⟨body, rfl, _⟩ := writtenBody_of_parse parsed
  exact @nested_of_hoist ts _ _ [] hoisted body.nested

theorem parse_ne_nil {node : Node} (parsed : parse ts = .ok node) : ts ≠ [] := by
  obtain ⟨phrase, rfl, _⟩ := written_of_parse parsed
  exact phrase.tokens_ne_nil

/-- Programs and fragments that are read have nested brackets, whatever their tokens are, and a stretch that is
read means the same in parentheses. -/
theorem read_nested_and_parens_transparent :
    (∀ ts program, parseProgram ts = .ok program ∨ parseFragment ts = .ok program → Nested ts) ∧
    (∀ ts node, parse ts = .ok node → ∀ first last : Token, first.kind = .openParen → last.kind = .closeParen →
      parse (first :: (ts ++ [last])) = .ok node) := by
  refine ⟨?_, ?_⟩
  · intro ts program read
    rcases read with read | read
    · exact nested_of_fragment (fragment_of_program read)
    · exact nested_of_fragment read
  · intro ts node parsed first last opens closes
    have wrapped : Wrapped (first :: (ts ++ [last])) ts := .intro opens closes (nested_of_parse parsed)
    rw [parse_of_shape (shape_group wrapped (parse_ne_nil parsed))]
    exact parsed

def sampleCall : List Token :=
  [⟨.ident, "f", {}⟩, ⟨.openParen, "(", {}⟩, ⟨.openBrace, "\x7b", {}⟩, ⟨.number, "1", {}⟩, ⟨.closeBrace, "\x7d", {}⟩,
    ⟨.closeParen, ")", {}⟩]

/-- A declaration behind a call of the function it declares. -/
def sampleDeclaration : List Token :=
  sampleCall ++ [⟨.funcWord, "func", {}⟩, ⟨.ident, "f", {}⟩, ⟨.openParen, "(", {}⟩, ⟨.ident, "a", {}⟩,
    ⟨.closeParen, ")", {}⟩, ⟨.openBrace, "\x7b", {}⟩, ⟨.returnWord, "return", {}⟩, ⟨.closeBrace, "\x7d", {}⟩]

theorem sampleDeclaration_nested :
    (∃ program, parseProgram sampleDeclaration = .ok program) ∧ Nested sampleDeclaration ∧
    ∃ node, parse sampleCall = .ok node ∧
      parse (⟨.openParen, "(", {}⟩ :: (sampleCall ++ [⟨.closeParen, ")", {}⟩])) = .ok node := by
  have accepted : (parseProgram sampleDeclaration).isOk = true ∧ (parse sampleCall).isOk = true := by
    decide +kernel
  obtain ⟨nested, transparent⟩ := read_nested_and_parens_transparent
  cases read : parseProgram sampleDeclaration with
  | error e =>
    rw [read] at accepted
    cases accepted.1
  | ok program =>
    cases parsed : parse sampleCall with
    | error e =>
      rw [parsed] at accepted
      cases accepted.2
    | ok node =>
      exact ⟨⟨program, rfl⟩, nested _ program (Or.inl read), node, rfl, transparent _ node parsed _ _ rfl rfl⟩

end Scriptlet.Proofs.ConcreteSyntax
