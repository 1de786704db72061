import Scriptlet.Proofs.AcceptedNesting
import Scriptlet.Proofs.ProgramRendering

/-! Where a declaration may stand. It is taken out with its body, and the tokens around it are read as if it
had never been there, provided that nothing follows it or something that can start a statement. In front of a
closing brace it is refused. The end of its body is looked for as the end of any statement is, among all the
tokens that follow, and that search gives up at a brace which it has not opened. -/

namespace Scriptlet.Proofs.DeclarationPlacement
open Grammar GrammarNesting GrammarSegments ConcreteSyntax ProgramRendering

/-- Names with commas between them. -/
inductive Listed : List Token → List String → Prop where
  | one {name} (named : name.kind = .ident) : Listed [name] [name.lexeme]
  | more {name comma rest others} (named : name.kind = .ident) (divides : comma.kind = .comma)
      (next : Listed rest others) : Listed (name :: comma :: rest) (name.lexeme :: others)

inductive Parameters : List Token → List String → Prop where
  | none : Parameters [] []
  | some {list params} (listed : Listed list params) : Parameters list params

/-- A declaration whose body is one block in braces. The block can be read on its own, and no other
declaration is inside it. -/
inductive Declares : Definition → List Token → Prop where
  | intro {word name opens closes left right : Token} {list inner : List Token} {params : List String}
      {place : Position} {nodes : List Node} (declaring : word.kind = .funcWord) (named : name.kind = .ident)
      (opening : opens.kind = .openParen) (listed : Parameters list params) (closing : closes.kind = .closeParen)
      (entering : left.kind = .openBrace) (leaving : right.kind = .closeBrace)
      (body : parse (left :: (inner ++ [right])) = .ok (.block place nodes))
      (bare : ∀ t ∈ inner, t.kind ≠ .funcWord) :
      Declares ⟨name.lexeme, params, .block place nodes⟩
        (word :: name :: opens :: (list ++ closes :: left :: (inner ++ [right])))

section Reading
variable {word name opens closes left right t : Token} {list inner rest after body : List Token} {params : List String}

theorem Listed.read (listed : Listed list params) (word : Token) (function : String)
    (closing : closes.kind = .closeParen) :
    parameters word function (list ++ closes :: rest) = .ok (params, rest) := by
  induction listed with
  | one named => simp [parameters, named, closing]
  | more named divides _ ih =>
    rw [List.cons_append, List.cons_append, parameters, if_neg (not_not_intro named), divides, ih]
    rfl

theorem Parameters.read (listed : Parameters list params) (word : Token) (function : String)
    (closing : closes.kind = .closeParen) :
    parameterList word function (list ++ closes :: rest) = .ok (params, rest) := by
  cases listed with
  | none => simp [parameterList, closing]
  | some listed =>
    have read := @Listed.read closes list rest params listed word function closing
    cases listed with
    | one named => rwa [List.cons_append, parameterList, if_neg (by simp [named])]
    | more named _ _ => rwa [List.cons_append, parameterList, if_neg (by simp [named])]

theorem Listed.bare (listed : Listed list params) : ∀ t ∈ list, t.kind ≠ .funcWord := by
  induction listed with
  | one named => simp [named]
  | more named divides _ ih => simpa [named, divides] using ih

theorem Parameters.bare (listed : Parameters list params) : ∀ t ∈ list, t.kind ≠ .funcWord := by
  cases listed with
  | none => simp
  | some listed => exact listed.bare

theorem declaration_header (named : name.kind = .ident) (opening : opens.kind = .openParen)
    (listed : Parameters list params) (closing : closes.kind = .closeParen) (some : body ≠ []) :
    declaration word (name :: opens :: (list ++ closes :: body)) = (do
      let length ← segmentLength body
      let node ← parse (body.take length)
      return (⟨name.lexeme, params, node⟩, body.drop length)) := by
  simp only [declaration, named, opening, ne_eq, not_true_eq_false, ↓reduceIte, listed.read word name.lexeme closing,
    bind, Except.bind, List.isEmpty_iff, some]

/-- What is read as a block from an opening brace to a closing one has nested brackets in between. -/
theorem nested_of_block {place : Position} {nodes : List Node} (entering : left.kind = .openBrace)
    (parsed : parse (left :: (inner ++ [right])) = .ok (.block place nodes)) : Nested inner := by
  obtain ⟨phrase, written, meant⟩ := written_of_parse parsed
  cases phrase with
  | block first body last _ _ =>
    obtain ⟨_, written⟩ := List.cons.inj written
    obtain ⟨rfl, _⟩ := List.append_inj' written rfl
    exact body.nested
  | group first _ _ opens _ =>
    obtain ⟨rfl, _⟩ := List.cons.inj written
    cases opens.symm.trans entering
  | _ => cases meant

theorem segment_braces (entering : left.kind = .openBrace) (leaving : right.kind = .closeBrace)
    (nested : Nested inner) :
    segmentLength (left :: (inner ++ right :: after)) = onward 0 right (inner.length + 2) after := by
  rw [segment_scan (by simp [entering]) (by simp [entering]) (by simp [entering]), scan_block entering leaving nested]

private theorem onward_closeBrace (last : Token) (length : Nat) (closes : t.kind = .closeBrace) :
    onward 0 last length (t :: rest) = .error (t.fault .strayCloseBrace) := by
  rw [onward_before last length (by simp [closes, startsStatement]), scanLength]
  simp [closes, Except.map]

end Reading

section Hoisting
variable {d : Definition} {before declared after : List Token}

/-- A declaration and what comes of it, depending on what follows. -/
theorem Declares.read (declares : Declares d declared) :
    ∃ word tail, declared = word :: tail ∧ word.kind = .funcWord ∧ (∀ t ∈ tail, t.kind ≠ .funcWord) ∧
      (∀ after, BlockStops after → declaration word (tail ++ after) = .ok (d, after)) ∧
      ∀ t rest, t.kind = .closeBrace →
        declaration word (tail ++ t :: rest) = .error (t.fault .strayCloseBrace) := by
  cases declares with
  | @intro word name opens closes left right list inner params place nodes declaring named opening listed closing
      entering leaving body bare =>
    have nested := nested_of_block entering body
    have read (after : List Token) := @declaration_header word name opens closes list
      (left :: (inner ++ right :: after)) params named opening listed closing (List.cons_ne_nil _ _)
    refine ⟨word, _, rfl, declaring, ?_, fun after stops => ?_, fun t rest closes => ?_⟩
    · simp only [List.forall_mem_cons, List.forall_mem_append]
      exact ⟨by simp [named], by simp [opening], listed.bare, by simp [closing], by simp [entering], bare,
        by simp [leaving], by simp⟩
    · have whole : (left :: (inner ++ right :: after)).take (inner.length + 2) = left :: (inner ++ [right]) := by
        simp [List.take_append, List.take_of_length_le]
      have behind : (left :: (inner ++ right :: after)).drop (inner.length + 2) = after := by
        simp [List.drop_append]
      have ends : endsExpression right.kind = true := by simp [leaving, endsExpression]
      simp only [List.cons_append, List.append_assoc, List.nil_append]
      rw [read, segment_braces entering leaving nested, onward_stops _ ends stops]
      simp only [bind, Except.bind, whole, body, behind]
      rfl
    · simp only [List.cons_append, List.append_assoc, List.nil_append]
      rw [read, segment_braces entering leaving nested, onward_closeBrace right _ closes]
      rfl

theorem hoist_nothing (bare : ∀ t ∈ after, t.kind ≠ .funcWord) : hoist after = .ok ([], after) := by
  have empty : hoist [] = .ok ([], []) := by rw [hoist]
  simpa using hoist_bare bare empty

theorem hoist_refused {word : Token} {rest left : List Token} {functions : List Definition} {e : ParseError}
    (declaring : word.kind = .funcWord) (hoisted : hoist rest = .ok (functions, left))
    (refused : declaration word left = .error e) : hoist (word :: rest) = .error e := by
  rw [hoist, hoisted]
  simp only [bind, Except.bind, if_pos declaring, refused]

theorem hoist_error {rest : List Token} {e : ParseError} (bare : ∀ t ∈ before, t.kind ≠ .funcWord)
    (failed : hoist rest = .error e) : hoist (before ++ rest) = .error e := by
  induction before with
  | nil => exact failed
  | cons t before ih =>
    rw [List.cons_append, hoist, ih (List.forall_mem_cons.mp bare).2]
    rfl

/-- What a fragment is depends on its tokens only through what taking out the declarations leaves. -/
theorem parseFragment_functions {ts rest : List Token} {functions others : List Definition}
    (hoisted : hoist ts = .ok (functions, after)) (without : hoist rest = .ok (others, after)) :
    parseFragment ts = (parseFragment rest).map fun program => { program with functions } := by
  simp only [parseFragment, hoisted, without, bind, Except.bind]
  cases after with
  | nil => rfl
  | cons first after =>
    cases parseStatements (first :: after) with
    | error e => rfl
    | ok nodes => rfl

/-- A declaration among tokens without declarations is its function, and changes nothing else about how they
are read, unless it stands in front of a closing brace. There it is refused, although the same tokens without it
may well be read. -/
theorem fragment_around_declaration (declares : Declares d declared) (bareBefore : ∀ t ∈ before, t.kind ≠ .funcWord)
    (bareAfter : ∀ t ∈ after, t.kind ≠ .funcWord) :
    (BlockStops after → parseFragment (before ++ declared ++ after) =
      (parseFragment (before ++ after)).map fun program => { program with functions := [d] }) ∧
    (∀ t rest, after = t :: rest → t.kind = .closeBrace →
      parseFragment (before ++ declared ++ after) = .error (t.fault .strayCloseBrace)) := by
  obtain ⟨word, tail, rfl, declaring, bareTail, accepted, refused⟩ := declares.read
  have later : hoist (tail ++ after) = .ok ([], tail ++ after) :=
    hoist_nothing (List.forall_mem_append.mpr ⟨bareTail, bareAfter⟩)
  rw [List.append_assoc, List.cons_append]
  constructor
  · intro stops
    have taken : hoist (word :: (tail ++ after)) = .ok ([d], after) :=
      hoist_declaration declaring later (accepted after stops)
    exact parseFragment_functions (hoist_bare bareBefore taken)
      (hoist_nothing (List.forall_mem_append.mpr ⟨bareBefore, bareAfter⟩))
  · rintro t rest rfl closes
    rw [parseFragment, hoist_error bareBefore (hoist_refused declaring later (refused t rest closes))]
    rfl

end Hoisting

/-- `func f(a) { return a }`. -/
def sampleEcho : List Token :=
  [⟨.funcWord, "func", {}⟩, ⟨.ident, "f", {}⟩, ⟨.openParen, "(", {}⟩, ⟨.ident, "a", {}⟩, ⟨.closeParen, ")", {}⟩,
    ⟨.openBrace, "\x7b", {}⟩, ⟨.returnWord, "return", {}⟩, ⟨.ident, "a", {}⟩, ⟨.closeBrace, "\x7d", {}⟩]

def sampleEchoDefinition : Definition := ⟨"f", ["a"], .block {} [.ret {} (.get {} "a")]⟩

private theorem sampleEcho_declares : Declares sampleEchoDefinition sampleEcho := by
  have parsed : parse [⟨.openBrace, "\x7b", {}⟩, ⟨.returnWord, "return", {}⟩, ⟨.ident, "a", {}⟩,
      ⟨.closeBrace, "\x7d", {}⟩] = .ok (.block {} [.ret {} (.get {} "a")]) := by
    cbv
  exact @Declares.intro ⟨.funcWord, "func", {}⟩ ⟨.ident, "f", {}⟩ ⟨.openParen, "(", {}⟩ ⟨.closeParen, ")", {}⟩
    ⟨.openBrace, "\x7b", {}⟩ ⟨.closeBrace, "\x7d", {}⟩ [⟨.ident, "a", {}⟩]
    [⟨.returnWord, "return", {}⟩, ⟨.ident, "a", {}⟩] ["a"] {} _ rfl rfl rfl (.some (.one rfl)) rfl rfl rfl parsed
    (by decide)

/-- `x = 5` with the declaration in its middle is still that assignment. -/
theorem assignment_around_sampleEcho :
    ∃ program, parseFragment [⟨.ident, "x", {}⟩, ⟨.assign, "=", {}⟩, ⟨.number, "5", {}⟩] = .ok program ∧
      parseFragment ([⟨.ident, "x", {}⟩, ⟨.assign, "=", {}⟩] ++ sampleEcho ++ [⟨.number, "5", {}⟩]) =
        .ok { program with functions := [sampleEchoDefinition] } := by
  obtain ⟨same, _⟩ := @fragment_around_declaration sampleEchoDefinition [⟨.ident, "x", {}⟩, ⟨.assign, "=", {}⟩]
    sampleEcho [⟨.number, "5", {}⟩] sampleEcho_declares (by decide) (by decide)
  have stops : BlockStops [⟨.number, "5", {}⟩] := by simp [BlockStops, startsStatement]
  have accepted : (parseFragment [⟨.ident, "x", {}⟩, ⟨.assign, "=", {}⟩, ⟨.number, "5", {}⟩]).isOk = true := by
    decide +kernel
  cases read : parseFragment [⟨.ident, "x", {}⟩, ⟨.assign, "=", {}⟩, ⟨.number, "5", {}⟩] with
  | error e =>
    rw [read] at accepted
    cases accepted
  | ok program =>
    refine ⟨program, rfl, (same stops).trans ?_⟩
    rw [List.cons_append, List.cons_append, List.nil_append, read]
    rfl

/-- `{ func f(a) { return a } }` is refused, although `{ }` can be read: a declaration cannot be the last thing
in a block. -/
theorem declaration_refused_in_block :
    Declares sampleEchoDefinition sampleEcho ∧
    (parseFragment ([⟨.openBrace, "\x7b", {}⟩] ++ [⟨.closeBrace, "\x7d", {}⟩])).isOk = true ∧
    (parseFragment ([⟨.openBrace, "\x7b", {}⟩] ++ sampleEcho ++ [⟨.closeBrace, "\x7d", {}⟩])).isOk = false :=
  ⟨sampleEcho_declares, by decide +kernel, by decide +kernel⟩

end Scriptlet.Proofs.DeclarationPlacement
