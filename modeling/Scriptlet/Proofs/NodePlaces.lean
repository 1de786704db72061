import Scriptlet.Proofs.ErrorSource
import Scriptlet.Proofs.SessionState
import Scriptlet.Proofs.SourceSafety
import Scriptlet.Proofs.TreePlaces

/-! Where the nodes of a program stand. Every node that a run of a text can come to stands at one of the tokens of the
text, so every error does. -/

namespace Scriptlet.Proofs.NodePlaces
open Grammar EvalChange EvalInduction EvalMoments ErrorOrigin CallIsolation CallStack ConcreteSyntax
open ErrorSource FormedProgram LoopFreeTermination SessionState SourceSafety TreePlaces ValueDiscipline

def Placed (ts : List Token) (node : Node) : Prop := ∃ t ∈ ts, t.position = node.position

/-- All nodes that an evaluation can come to stand at tokens. -/
def AllPlaced (ts : List Token) : Node → Prop := Throughout (Placed ts)

section Programs
variable {ts : List Token} {program : Program}

private theorem places_part {node part : Node} (member : part ∈ parts node) : part.places ⊆ node.places := by
  cases node with
  | block p nodes => exact List.subset_cons_of_subset p (Node.places_subset_placesAll member)
  | call p function arguments =>
    apply List.subset_cons_of_subset p
    rcases List.mem_cons.mp member with rfl | argument
    · exact List.subset_append_left _ _
    · exact List.subset_append_of_subset_right _ (Node.places_subset_placesAll argument)
  | branch p test action otherwise =>
    have among : part = test ∨ part = action ∨ part = otherwise := by
      simp only [parts, List.mem_cons] at member
      refine member.imp_right (Or.imp_right fun last => ?_)
      split at last
      · cases last
      · exact List.mem_singleton.mp last
    rcases among with rfl | rfl | rfl <;> intro place there <;> simp [Node.places, there]
  | loop p test action =>
    simp only [parts, List.mem_cons, List.not_mem_nil, or_false] at member
    rcases member with rfl | rfl <;> intro place there <;> simp [Node.places, there]
  | ret p value =>
    obtain rfl := List.mem_singleton.mp member
    exact List.subset_cons_self p _
  | set p name value =>
    obtain rfl := List.mem_singleton.mp member
    exact List.subset_cons_self p _
  | _ => cases member

private theorem allPlaced_of_places {code : Node} (formed : Formed code)
    (within : code.places ⊆ ts.map Token.position) :
    AllPlaced ts code := by
  intro node inside
  have facts : Formed node ∧ node.places ⊆ ts.map Token.position := by
    induction inside with
    | refl => exact ⟨formed, within⟩
    | tail _ member ih => exact ⟨formed_part ih.1 _ member, List.Subset.trans (places_part member) ih.2⟩
  exact List.mem_map.mp (facts.2 (Node.position_mem_places facts.1.present))

theorem allPlaced_program (read : parseProgram ts = .ok program) :
    AllPlaced ts program.main ∧ ∀ d ∈ program.functions, AllPlaced ts d.body := by
  obtain ⟨rest, hoisted, parsed⟩ := statements_of_fragment (fragment_of_program read)
  obtain ⟨body, _, meant⟩ := writtenBody_of_parse parsed
  have formed : Formed program.main := .block (meant ▸ formed_body body)
  obtain ⟨main, functions⟩ := places_program read
  exact ⟨allPlaced_of_places formed main,
    fun d member => allPlaced_of_places (formed_of_hoist hoisted d member) (functions d member)⟩

end Programs

/-- The node and the bodies of all functions in the table are read from the tokens. -/
structure ReadAt (ts : List Token) (now : Moment) : Prop where
  node : AllPlaced ts now.node
  table : ∀ d ∈ now.machine.definitions.toList, AllPlaced ts d.body

theorem ReadAt.starts {ts : List Token} {now next : Moment} (starts : Starts now next) (readAt : ReadAt ts now) :
    ReadAt ts next := by
  refine ⟨?_, (starts_setting starts).definitions ▸ readAt.table⟩
  rcases starts_cases starts with ⟨d, enters⟩ | ⟨_, part | ⟨_, again⟩⟩
  · obtain ⟨body, i, listed⟩ := enters_listed enters
    rw [← Array.getElem?_toList] at listed
    exact body ▸ readAt.table d (List.mem_of_getElem? listed)
  · exact fun node inside => readAt.node node (.head part inside)
  · exact again ▸ readAt.node

def firstMoment (m : Machine) (program : Program) : Moment := ⟨launch m program.functions, program.main⟩

/-- An error of a text that is run on a new machine was raised by a node that stands at one of the tokens, and its
line is one of the text. -/
theorem error_at_token {limit : Int} {fuel : Nat} {sink : Sink} {name file text : String} {e : RuntimeError}
    {after : Machine}
    (failed : (Machine.new limit sink name).runSource fuel file text = some (.error (.runtime e), after)) :
    ∃ ts program t now here, tokenize text = .ok ts ∧ parseProgram ts = .ok program ∧ t ∈ ts ∧
      t.position = e.position ∧
      Reaches (firstMoment ((Machine.new limit sink name).setSource file text) program) now ∧
      Raises now here e.position e.fault ∧ e.line = (Source.ofText file text).line e.position.line := by
  rcases runSource_cases failed with ⟨_, _, same, _⟩ | ⟨program, result, read, evaluated, same⟩
  · cases same
  cases result with
  | ok value => cases same
  | error _ =>
    cases same
    obtain ⟨ts, scanned, parsed⟩ := readSource_ok read
    obtain ⟨now, here, position, fault, reached, raises, rfl, _⟩ :=
      @error_origin _ _ _ (firstMoment ((Machine.new limit sink name).setSource file text) program) evaluated
    obtain ⟨main, functions⟩ := allPlaced_program parsed
    have start : ReadAt ts (firstMoment ((Machine.new limit sink name).setSource file text) program) := by
      refine ⟨main, ?_⟩
      rw [firstMoment, launch, defineAll_definitions]
      simpa [Machine.setSource, Machine.new] using functions
    have readAt := Reaches.induct ReadAt.starts reached start
    obtain ⟨node, inside, place⟩ := raises_position raises
    obtain ⟨t, member, same⟩ := readAt.node node inside
    obtain ⟨active, path⟩ := active_of_reaches reached
    have source : here.source = .ofText file text := by
      rw [(raises_setting raises).source, (active_setting path).source, firstMoment, launch_source]
      rfl
    refine ⟨ts, program, t, now, here, scanned, parsed, member, same.trans place, reached, raises, ?_⟩
    exact congrArg (fun s : Source => s.line position.line) source

end Scriptlet.Proofs.NodePlaces
