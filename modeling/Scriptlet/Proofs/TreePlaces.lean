import Scriptlet.Proofs.SessionDeclaration

/-! The places that stand in a program tree. The rules that put a tree together take a place from a token and from
nowhere else, so a tree that was read stands at the tokens it was read from, with all its nodes. -/

namespace Scriptlet.Node

mutual

/-- Where a node and the nodes inside it stand. -/
def places : Node → List Position
  | absent => []
  | unknown p => [p]
  | block p statements => p :: placesAll statements
  | branch p condition action otherwise => p :: (condition.places ++ (action.places ++ otherwise.places))
  | loop p condition action => p :: (condition.places ++ action.places)
  | .ret p value => p :: value.places
  | set p _ value => p :: value.places
  | get p _ => [p]
  | const p _ => [p]
  | call p function arguments => p :: (function.places ++ placesAll arguments)
  | member p base _ => p :: base.places

def placesAll : List Node → List Position
  | [] => []
  | node :: nodes => node.places ++ placesAll nodes

end

theorem places_subset_placesAll {node : Node} {nodes : List Node} (member : node ∈ nodes) :
    node.places ⊆ placesAll nodes := by
  induction nodes with
  | nil => cases member
  | cons first others ih =>
    rw [placesAll]
    rcases List.mem_cons.mp member with rfl | later
    · exact List.subset_append_left _ _
    · exact List.subset_append_of_subset_right _ (ih later)

theorem position_mem_places {node : Node} (present : node.isAbsent = false) : node.position ∈ node.places := by
  cases node with
  | absent => cases present
  | _ => simp [position, places]

end Scriptlet.Node

namespace Scriptlet.Proofs.TreePlaces
open Grammar ConcreteSyntax GrammarSegments SessionDeclaration

section Phrases
variable {ts : List Token}

private theorem place_mem {t : Token} (member : t ∈ ts) :
    t.position ∈ ts.map Token.position := List.mem_map_of_mem member

private theorem start_mem (phrase : Phrase) (within : phrase.tokens ⊆ ts) : phrase.start ∈ ts.map Token.position := by
  obtain ⟨t, rest, split⟩ := List.exists_cons_of_ne_nil phrase.tokens_ne_nil
  rw [start_eq (t := t) (by rw [split, List.head?_cons])]
  exact place_mem (within (by simp [split]))

mutual

theorem places_phrase (phrase : Phrase) (within : phrase.tokens ⊆ ts) :
    phrase.node.places ⊆ ts.map Token.position := by
  cases phrase with
  | name t _ =>
    rw [Phrase.tokens] at within
    simpa [Phrase.node, Node.places] using place_mem (within List.mem_cons_self)
  | constant t value _ =>
    rw [Phrase.tokens] at within
    simpa [Phrase.node, Node.places] using place_mem (within List.mem_cons_self)
  | group first inner last _ _ =>
    simp only [Phrase.tokens, List.cons_subset, List.append_subset] at within
    exact places_phrase inner within.2.1
  | block first body last _ _ =>
    simp only [Phrase.tokens, List.cons_subset, List.append_subset] at within
    exact List.cons_subset.mpr ⟨place_mem within.1, places_body body within.2.1⟩
  | stop word _ =>
    simp only [Phrase.tokens, List.cons_subset] at within
    simpa [Phrase.node, Node.places] using place_mem within.1
  | ret word value _ =>
    simp only [Phrase.tokens, List.cons_subset] at within
    exact List.cons_subset.mpr ⟨place_mem within.1, places_phrase value within.2⟩
  | branch word condition action _ =>
    simp only [Phrase.tokens, List.cons_subset, List.append_subset] at within
    simp only [Phrase.node, Node.places, List.cons_subset, List.append_subset, List.nil_subset, and_true]
    exact ⟨place_mem within.1, places_phrase condition within.2.1, places_phrase action within.2.2⟩
  | choice word condition action opposite otherwise _ _ =>
    simp only [Phrase.tokens, List.cons_subset, List.append_subset] at within
    simp only [Phrase.node, Node.places, List.cons_subset, List.append_subset]
    exact ⟨place_mem within.1, places_phrase condition within.2.1, places_phrase action within.2.2.1,
      places_phrase otherwise within.2.2.2.2⟩
  | loop word condition action _ =>
    simp only [Phrase.tokens, List.cons_subset, List.append_subset] at within
    simp only [Phrase.node, Node.places, List.cons_subset, List.append_subset]
    exact ⟨place_mem within.1, places_phrase condition within.2.1, places_phrase action within.2.2⟩
  | unary operator function operand _ =>
    simp only [Phrase.tokens, List.cons_subset] at within
    simp only [Phrase.node, operatorCall, Node.places, Node.placesAll, List.cons_subset, List.append_subset,
      List.nil_subset, and_true]
    exact ⟨place_mem within.1, place_mem within.1, places_phrase operand within.2⟩
  | binary left operator right _ =>
    simp only [Phrase.tokens, List.cons_subset, List.append_subset] at within
    simp only [Phrase.node, operatorCall, Node.places, Node.placesAll, List.cons_subset, List.append_subset,
      List.nil_subset, and_true]
    exact ⟨place_mem within.2.1, place_mem within.2.1, places_phrase left within.1, places_phrase right within.2.2⟩
  | assign target operator value _ _ =>
    simp only [Phrase.tokens, List.cons_subset] at within
    exact List.cons_subset.mpr ⟨place_mem within.1, places_phrase value within.2.2⟩
  | update target operator function value _ _ =>
    simp only [Phrase.tokens, List.cons_subset] at within
    simp only [Phrase.node, operatorCall, Node.places, Node.placesAll, List.cons_subset, List.append_subset,
      List.nil_subset, and_true]
    exact ⟨place_mem within.1, place_mem within.2.1, place_mem within.2.1, place_mem within.1,
      places_phrase value within.2.2⟩
  | invoke callee first last _ _ =>
    simp only [Phrase.tokens, List.append_subset] at within
    simp only [Phrase.node, Node.places, Node.placesAll, List.append_nil, List.cons_subset]
    exact ⟨start_mem callee within.1, places_phrase callee within.1⟩
  | call callee first inputs last _ _ =>
    simp only [Phrase.tokens, List.cons_subset, List.append_subset] at within
    simp only [Phrase.node, Node.places, List.cons_subset, List.append_subset]
    exact ⟨start_mem callee within.1, places_phrase callee within.1, places_inputs inputs within.2.2.1⟩
  | member base dot field _ _ =>
    simp only [Phrase.tokens, List.cons_subset, List.append_subset] at within
    exact List.cons_subset.mpr ⟨place_mem within.2.1, places_phrase base within.1⟩

theorem places_body (body : Body) (within : body.tokens ⊆ ts) :
    Node.placesAll body.nodes ⊆ ts.map Token.position := by
  cases body with
  | nil => exact List.nil_subset _
  | cons first others =>
    simp only [Body.tokens, List.append_subset] at within
    exact List.append_subset.mpr ⟨places_phrase first within.1, places_body others within.2⟩

theorem places_inputs (inputs : Inputs) (within : inputs.tokens ⊆ ts) :
    Node.placesAll inputs.nodes ⊆ ts.map Token.position := by
  cases inputs with
  | one last =>
    rw [Inputs.nodes, Node.placesAll, Node.placesAll, List.append_nil]
    exact places_phrase last within
  | more first comma others _ =>
    simp only [Inputs.tokens, List.cons_subset, List.append_subset] at within
    exact List.append_subset.mpr ⟨places_phrase first within.1, places_inputs others within.2.2⟩

end

end Phrases

section Programs
variable {ts : List Token} {program : Program}

private theorem places_declaration {d : Definition} (last : LastDeclaration ts d) :
    d.body.places ⊆ ts.map Token.position := by
  obtain @⟨before, after, left, rest, word, _, _, _, behind, read, _⟩ := last
  obtain ⟨name, paren, tail, params, body, length, rfl, _, _, listed, parsed, _, _⟩ := declaration_parts read
  obtain ⟨inner, close, rfl, _, _⟩ := parameterList_cut listed
  obtain ⟨phrase, written, meant⟩ := written_of_parse parsed
  rw [← meant]
  refine places_phrase phrase fun t member => ?_
  have inside : t ∈ body := List.mem_of_mem_take (written ▸ member)
  have hoisted : t ∈ after := hoist_subset behind (by simp [inside])
  exact List.mem_append_right before (List.mem_cons_of_mem word hoisted)

/-- The main block and the functions of a program that was read. -/
theorem places_program (read : parseProgram ts = .ok program) :
    program.main.places ⊆ ts.map Token.position ∧
      ∀ d ∈ program.functions, d.body.places ⊆ ts.map Token.position := by
  obtain ⟨⟨functions, rest⟩, hoisted, read⟩ := bind_eq_ok read
  cases rest with
  | nil => cases read
  | cons first rest =>
    obtain ⟨nodes, parsed, done⟩ := bind_eq_ok read
    cases done
    have within := hoist_subset hoisted
    obtain ⟨body, written, rfl⟩ := writtenBody_of_parse parsed
    refine ⟨?_, fun d member => places_declaration (lastDeclaration_of_mem hoisted member)⟩
    refine List.cons_subset.mpr ⟨place_mem (within List.mem_cons_self), places_body body ?_⟩
    rwa [written]

end Programs

end Scriptlet.Proofs.TreePlaces
