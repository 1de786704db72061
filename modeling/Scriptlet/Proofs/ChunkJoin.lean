import Scriptlet.Proofs.CallIsolation
import Scriptlet.Proofs.CallStack
import Scriptlet.Proofs.EvalTwins
import Scriptlet.Proofs.FormedProgram
import Scriptlet.Proofs.GrammarPlaces
import Scriptlet.Proofs.JoinedSource
import Scriptlet.Proofs.StatementJoin

/-! Two chunks of a session and the same text as one chunk. What the second chunk does hangs on the variables,
the functions and the output that the first one left, and on nothing else of it. So it makes no difference where
a session is cut into chunks, apart from the places that errors name. -/

namespace Scriptlet.Proofs.ChunkJoin
open Grammar Eval EvalFuel StructuredReturn EvalChange EvalTwins ScopeView ScopeDiscipline CallStack
open ConcreteSyntax FormedProgram GrammarPlaces GrammarSegments JoinedSource StatementJoin

/-- A text without declarations, its tokens, and the program it is read as. -/
structure PlainText (text : String) (ts : List Token) (program : Program) : Prop where
  scanned : tokenize text = .ok ts
  bare : ∀ t ∈ ts, t.kind ≠ .funcWord
  read : parseFragment ts = .ok program

section Texts
variable {first second : String} {ts others : List Token} {program more : Program} {nodes : List Node}

theorem PlainText.fragment (plain : PlainText first ts program) : Program.ofFragment first = .ok program :=
  ofFragment_of_tokens plain.scanned plain.read

theorem PlainText.statements (plain : PlainText first ts program) :
    program.functions = [] ∧ parseStatements ts = .ok program.statements :=
  statements_of_bare plain.bare plain.read

private theorem plainText_of_statements (scanned : tokenize first = .ok ts) (bare : ∀ t ∈ ts, t.kind ≠ .funcWord)
    (read : parseStatements ts = .ok nodes) :
    ∃ program, PlainText first ts program ∧ program.statements = nodes :=
  ⟨_, ⟨scanned, bare, fragment_of_bare bare read⟩, rfl⟩

/-- The joined text is read as the statements of the one text and then those of the other, which now stand
further down. -/
theorem PlainText.joined (before : PlainText first ts program) (after : PlainText second others more)
    (valued : ∀ t ∈ ts.getLast?, t.kind ≠ .returnWord) (some : more.statements ≠ [])
    (free : ∀ t ∈ others.head?, t.kind ∉ [.openParen, .minus, .notWord]) :
    ∃ joined whole nodes, PlainText (first ++ "\n" ++ second) joined whole ∧
      whole.statements = program.statements ++ nodes ∧ Node.unplacedAll nodes = Node.unplacedAll more.statements := by
  let lower := moved (lowered (1 + first.toList.count '\n'))
  have words : others.map Token.word = (others.map lower).map Token.word := by
    rw [List.map_map]
    rfl
  obtain ⟨nodes, read, same⟩ := parseStatements_words words after.statements.2
  have given : nodes ≠ [] := by
    rintro rfl
    rw [Node.unplacedAll_eq_map, Node.unplacedAll_eq_map, List.map_nil] at same
    exact some (List.map_eq_nil_iff.mp same.symm)
  have opening : ∀ t ∈ (others.map lower).head?, t.kind ∉ [.openParen, .minus, .notWord] := by
    intro t front
    rw [List.head?_map] at front
    obtain ⟨u, there, rfl⟩ := Option.map_eq_some_iff.mp front
    exact free u there
  have bare : ∀ t ∈ ts ++ others.map lower, t.kind ≠ .funcWord := by
    intro t member
    rcases List.mem_append.mp member with member | member
    · exact before.bare t member
    · obtain ⟨u, there, rfl⟩ := List.mem_map.mp member
      exact after.bare u there
  have parsed := parseStatements_joined before.statements.2 read valued given opening
  obtain ⟨whole, plain, statements⟩ :=
    plainText_of_statements (tokenize_joined before.scanned after.scanned) bare parsed
  exact ⟨_, whole, nodes, plain, statements, same⟩

end Texts

/-- The machines differ in the text that errors refer to, and in the session they began with. -/
def Apart (m n : Machine) : Prop := ∃ source session, n = { m with source := source, session := session }

theorem Apart.symm {m n : Machine} (apart : Apart m n) : Apart n m := by
  obtain ⟨source, session, rfl⟩ := apart
  exact ⟨m.source, m.session, rfl⟩

/-- Errors of one kind, with the same functions active. -/
def SameKind (e f : RuntimeError) : Prop := e.fault = f.fault ∧ e.stack = f.stack

def elsewhere : Twins where
  place _ _ := True
  ref := Eq
  related := Apart
  alike := SameKind
  excused _ := False
  nowhere := trivial
  returned := by
    rintro m _ ⟨source, session, rfl⟩
    exact optionRel_refl (sameValue_refl fun _ => rfl) m.returned
  lookup := by
    rintro m _ ⟨source, session, rfl⟩ name
    exact optionRel_refl (sameValue_refl fun _ => rfl) (m.lookup name)
  body := by
    rintro m _ f _ ⟨source, session, rfl⟩ rfl
    exact sameNode_refl (fun _ => trivial) (fun _ => rfl) (m.definition f).body
  refusal := by
    rintro m _ f _ args others ⟨source, session, rfl⟩ rfl given
    rw [← sameValues_eq given]
    exact Or.inl rfl
  error := by
    rintro m _ p q fault other ⟨source, session, rfl⟩ _ same
    rw [← sameFault_eq same]
    exact ⟨rfl, rfl⟩
  native := by
    rintro m _ args others ⟨source, session, rfl⟩ given f
    rw [← sameValues_eq given]
    exact ⟨sameResult_refl (fun _ => .same _) (sameValue_refl fun _ => rfl) _, source, session, rfl⟩
  assign := by
    rintro m _ v w ⟨source, session, rfl⟩ same name
    rw [← sameValue_eq same, assign_eq, assign_eq]
    exact ⟨source, session, rfl⟩
  record := by
    rintro m _ v w ⟨source, session, rfl⟩ same
    rw [← sameValue_eq same]
    exact ⟨source, session, rfl⟩
  enterBlock := by
    rintro m _ ⟨source, session, rfl⟩
    exact ⟨source, session, rfl⟩
  leaveBlock := by
    rintro m _ ⟨source, session, rfl⟩
    exact ⟨source, session, rfl⟩
  beginCall := by
    rintro m _ f _ args others ⟨source, session, rfl⟩ rfl given
    rw [← sameValues_eq given]
    exact ⟨source, session, rfl⟩
  endCall := by
    rintro m _ after _ ⟨source, session, rfl⟩ ⟨other, later, rfl⟩
    exact ⟨other, later, rfl⟩

mutual

theorem sameNode_of_unplaced (node other : Node) (same : node.unplaced = other.unplaced) :
    elsewhere.Node node other := by
  match node with
  | .absent =>
    cases other with
    | absent => exact .absent
    | _ => simp [Node.unplaced] at same
  | .unknown _ =>
    cases other with
    | unknown _ => exact .unknown trivial
    | _ => simp [Node.unplaced] at same
  | .block _ nodes =>
    cases other with
    | block _ others => exact .block trivial (sameNodes_of_unplaced nodes others (by simpa [Node.unplaced] using same))
    | _ => simp [Node.unplaced] at same
  | .branch _ test action otherwise =>
    cases other with
    | branch _ test' action' otherwise' =>
      simp only [Node.unplaced, Node.branch.injEq, true_and] at same
      exact .branch trivial (sameNode_of_unplaced test test' same.1) (sameNode_of_unplaced action action' same.2.1)
        (sameNode_of_unplaced otherwise otherwise' same.2.2)
    | _ => simp [Node.unplaced] at same
  | .loop _ test action =>
    cases other with
    | loop _ test' action' =>
      simp only [Node.unplaced, Node.loop.injEq, true_and] at same
      exact .loop trivial (sameNode_of_unplaced test test' same.1) (sameNode_of_unplaced action action' same.2)
    | _ => simp [Node.unplaced] at same
  | .ret _ value =>
    cases other with
    | ret _ value' => exact .ret trivial (sameNode_of_unplaced value value' (by simpa [Node.unplaced] using same))
    | _ => simp [Node.unplaced] at same
  | .set _ name value =>
    cases other with
    | set _ name' value' =>
      simp only [Node.unplaced, Node.set.injEq, true_and] at same
      obtain ⟨rfl, same⟩ := same
      exact .set trivial (sameNode_of_unplaced value value' same)
    | _ => simp [Node.unplaced] at same
  | .get _ name =>
    cases other with
    | get _ name' =>
      simp only [Node.unplaced, Node.get.injEq, true_and] at same
      exact same ▸ .get trivial name
    | _ => simp [Node.unplaced] at same
  | .const _ value =>
    cases other with
    | const _ value' =>
      simp only [Node.unplaced, Node.const.injEq, true_and] at same
      exact .const trivial (same ▸ sameValue_refl (fun _ => rfl) value)
    | _ => simp [Node.unplaced] at same
  | .call _ function arguments =>
    cases other with
    | call _ function' arguments' =>
      simp only [Node.unplaced, Node.call.injEq, true_and] at same
      exact .call trivial (sameNode_of_unplaced function function' same.1)
        (sameNodes_of_unplaced arguments arguments' same.2)
    | _ => simp [Node.unplaced] at same
  | .member _ base name =>
    cases other with
    | member _ base' name' =>
      simp only [Node.unplaced, Node.member.injEq, true_and] at same
      exact same.2 ▸ .member trivial base base' name
    | _ => simp [Node.unplaced] at same

theorem sameNodes_of_unplaced (nodes others : List Node) (same : Node.unplacedAll nodes = Node.unplacedAll others) :
    List.Forall₂ elsewhere.Node nodes others := by
  match nodes with
  | [] =>
    cases others with
    | nil => exact .nil
    | cons => simp [Node.unplacedAll] at same
  | node :: nodes =>
    cases others with
    | nil => simp [Node.unplacedAll] at same
    | cons other others =>
      simp only [Node.unplacedAll, List.cons.injEq] at same
      exact .cons (sameNode_of_unplaced node other same.1) (sameNodes_of_unplaced nodes others same.2)

end

section Statements
variable {fuel : Nat} {last v : Value} {nodes more : List Node} {m middle after : Machine}

theorem checked_idle {first : Eval Value} {stop : Value → Value} {next : Value → Eval Value}
    (ended : checked first stop next m = some (.ok v, after)) (idle : Idle after) :
    ∃ value middle, first m = some (.ok value, middle) ∧ Idle middle ∧ next value middle = some (.ok v, after) := by
  cases ran : first m with
  | none =>
    rw [checked, bind_apply, ran] at ended
    cases ended
  | some result =>
    obtain ⟨outcome, middle⟩ := result
    cases outcome with
    | error e =>
      rw [checked, bind_apply, ran] at ended
      cases ended
    | ok value =>
      cases returned : middle.returned with
      | none =>
        rw [checked_normal ran returned] at ended
        exact ⟨value, middle, rfl, returned, ended⟩
      | some other =>
        simp only [checked, bind_apply, ran, isReturning_apply, returned] at ended
        cases ended
        rw [Idle, returned] at idle
        cases idle

/-- If the first statements end and no return is under way, the others go on where they ended. -/
theorem evalStatements_append (ran : evalStatements fuel last nodes m = some (.ok v, middle)) (idle : Idle middle)
    {enough : Nat} (le : fuel ≤ enough) :
    evalStatements (enough + nodes.length) last (nodes ++ more) m = evalStatements enough v more middle := by
  induction nodes generalizing fuel last m with
  | nil =>
    cases fuel with
    | zero => cases ran
    | succ fuel =>
      cases ran
      rfl
  | cons node nodes ih =>
    cases fuel with
    | zero => cases ran
    | succ fuel =>
      rw [evalStatements_cons] at ran
      obtain ⟨value, mid, here, still, later⟩ := checked_idle ran idle
      have again : eval (enough + nodes.length) node m = some (.ok value, mid) :=
        eval_grows node (by omega) m _ here
      rw [List.cons_append, List.length_cons, ← Nat.add_assoc, evalStatements_cons, checked_normal again still]
      exact ih later (by omega)

theorem evalStatements_last (some : nodes ≠ []) (fuel : Nat) (first second : Value) :
    evalStatements fuel first nodes = evalStatements fuel second nodes := by
  obtain ⟨node, nodes, rfl⟩ := List.exists_cons_of_ne_nil some
  cases fuel with
  | zero => rfl
  | succ fuel => rw [evalStatements_cons, evalStatements_cons]

theorem evalStatements_kept {outcome : Except RuntimeError Value}
    (ran : evalStatements fuel last nodes m = some (outcome, after)) :
    after.frames.length = m.frames.length ∧ after.calls = m.calls ∧ after.source = m.source := by
  have disciplined := evalStatements_within disciplined_respected fuel last nodes m outcome after ran
  have called := evalStatements_within CallIsolation.sameCall_respected fuel last nodes m outcome after ran
  have set := evalStatements_within CallIsolation.sameSetting_respected fuel last nodes m outcome after ran
  have count := disciplined.count
  rw [length_scope, length_scope] at count
  exact ⟨by omega, called.calls, set.source⟩

end Statements

/-- The value of the top-level `return` that ended a chunk, if one did. -/
def topReturn? (m : Machine) (fuel : Nat) (file text : String) : Option Value := do
  let program ← (Program.ofFragment text).toOption
  let (_, reached) ← evalStatements fuel .empty program.statements (chunkStart (m.setSource file text) program)
  reached.returned

/-- The same value, or errors of one kind. -/
inductive SameOutcome : Except Failure Value → Except Failure Value → Prop where
  | value (v : Value) : SameOutcome (.ok v) (.ok v)
  | failure {e f : RuntimeError} (same : SameKind e f) : SameOutcome (.error (.runtime e)) (.error (.runtime f))

theorem SameOutcome.symm {outcome reply : Except Failure Value} (same : SameOutcome outcome reply) :
    SameOutcome reply outcome := by
  cases same with
  | value v => exact .value v
  | failure same => exact .failure ⟨same.1.symm, same.2.symm⟩

theorem Apart.trans {l m n : Machine} (first : Apart l m) (second : Apart m n) : Apart l n := by
  obtain ⟨source, session, rfl⟩ := first
  obtain ⟨other, later, rfl⟩ := second
  exact ⟨other, later, rfl⟩

/-- Where nothing is declared, a chunk starts on the machine as it was, in the frame of the session. -/
theorem chunkStart_bare (m : Machine) {program : Program} (bare : program.functions = []) :
    chunkStart m program = { m with frames := [m.session], returned := none, calls := [] } := by
  rw [chunkStart, bare]
  rfl

private theorem statements_elsewhere {fuel : Nat} {last : Value} {nodes others : List Node} {m n after : Machine}
    {outcome : Except RuntimeError Value} (same : List.Forall₂ elsewhere.Node nodes others) (apart : Apart m n)
    (ran : evalStatements fuel last nodes m = some (outcome, after)) :
    ∃ reply final, evalStatements fuel last others n = some (reply, final) ∧ Apart after final ∧
      SameResult SameKind Eq outcome reply := by
  have start : elsewhere.Value last last := sameValue_refl (fun _ => rfl) last
  have answer := (elsewhere.alongside fuel).statements last last nodes others start same m n apart _ ran
  generalize evalStatements fuel last others n = answered at answer ⊢
  cases answer with
  | value same together => exact ⟨_, _, rfl, together, .ok (sameValue_eq same)⟩
  | error alike together => exact ⟨_, _, rfl, together, .error alike⟩
  | excused excused => exact excused.elim

/-- What is left of a chunk when its statements have ended. -/
def settled (m : Machine) (session : Frame) : Machine :=
  { m with session := m.frames.headD session, returned := none }

theorem Apart.settled {m n : Machine} (apart : Apart m n) {frame : Frame} (frames : m.frames = [frame])
    (before now : Frame) : settled n now = { settled m before with source := n.source } := by
  obtain ⟨source, session, rfl⟩ := apart
  simp only [ChunkJoin.settled, frames, List.headD_cons]

theorem Apart.outcome {m n : Machine} {outcome reply : Except RuntimeError Value} (apart : Apart m n)
    (same : SameResult SameKind Eq outcome reply) :
    SameOutcome ((outcome.map m.outcome).mapError .runtime) ((reply.map n.outcome).mapError .runtime) := by
  obtain ⟨source, session, rfl⟩ := apart
  cases same with
  | ok same =>
    cases same
    exact .value _
  | error same => exact .failure same

private theorem runChunk_iff {m last : Machine} {fuel : Nat} {file text : String} {program : Program}
    {outcome : Except Failure Value} (read : Program.ofFragment text = .ok program) :
    m.runChunk fuel file text = some (outcome, last) ↔ ∃ result reached,
      evalStatements fuel .empty program.statements (chunkStart (m.setSource file text) program) =
        some (result, reached) ∧
      outcome = (result.map reached.outcome).mapError .runtime ∧ last = settled reached m.session := by
  constructor
  · intro ran
    rcases runChunk_cases ran with ⟨e, unread, _⟩ | ⟨again, result, reached, found, evaluated, outcome, last⟩
    · cases read.symm.trans unread
    · cases read.symm.trans found
      exact ⟨result, reached, evaluated, outcome, last⟩
  · rintro ⟨result, reached, evaluated, rfl, rfl⟩
    exact runChunk_read read evaluated

section Joined
variable {m mid : Machine} {fuel : Nat} {file first second : String} {ts others : List Token} {program more : Program}
  {v : Value}

theorem chunk_ended {nodes : List Node} {outcome : Except RuntimeError Value} {reached : Machine}
    (ran : evalStatements fuel .empty nodes (chunkStart m program) = some (outcome, reached)) :
    (∃ frame, reached.frames = [frame]) ∧ reached.calls = [] ∧ reached.source = m.source := by
  obtain ⟨count, calls, source⟩ := evalStatements_kept ran
  refine ⟨List.length_eq_one_iff.mp count, calls, source.trans ?_⟩
  rw [chunkStart, defineAll_eq]

/-- The statements of the second text come to run in the joined text on a machine that differs from the one
on which they run as a chunk in the text that it refers to, and in the session it began with. -/
theorem second_statements (before : PlainText first ts program) (after : PlainText second others more)
    (ran : m.runChunk fuel file first = some (.ok v, mid)) (unreturned : topReturn? m fuel file first = none)
    {nodes : List Node} (fileMore fileJoined text : String) {whole : Program} (bare : whole.functions = [])
    (statements : whole.statements = program.statements ++ nodes) (given : nodes ≠ []) :
    ∃ reached, Apart (chunkStart (mid.setSource fileMore second) more) reached ∧
      ∀ enough, fuel ≤ enough → evalStatements (enough + program.statements.length) .empty whole.statements
        (chunkStart (m.setSource fileJoined text) whole) = evalStatements enough .empty nodes reached := by
  obtain ⟨result, reached, evaluated, outcome, same⟩ := (runChunk_iff before.fragment).mp ran
  cases result with
  | error e => cases outcome
  | ok w =>
    have idle : Idle reached := by
      simpa [topReturn?, before.fragment, Except.toOption, evaluated, Idle] using unreturned
    obtain ⟨⟨frame, frames⟩, calls, _⟩ := chunk_ended evaluated
    -- The second chunk starts in the one frame that the first one left.
    have start : Apart reached (chunkStart (mid.setSource fileMore second) more) := by
      refine ⟨.ofText fileMore second, frame, ?_⟩
      rw [chunkStart_bare _ after.statements.1, same]
      simp only [Machine.setSource, settled, frames, List.headD_cons, calls]
      rw [show reached.returned = none from idle]
    have starts : Apart (chunkStart (m.setSource file first) program)
        (chunkStart (m.setSource fileJoined text) whole) := by
      rw [chunkStart_bare _ before.statements.1, chunkStart_bare _ bare]
      exact ⟨.ofText fileJoined text, m.session, rfl⟩
    obtain ⟨reply, final, ended, apart, matched⟩ :=
      statements_elsewhere (sameNodes_of_unplaced program.statements _ rfl) starts evaluated
    cases matched with
    | ok value =>
      subst value
      refine ⟨final, start.symm.trans apart, ?_⟩
      intro enough le
      have idleToo : Idle final := by
        obtain ⟨source, session, rfl⟩ := apart
        exact idle
      rw [statements, evalStatements_append ended idleToo le]
      exact congrFun (evalStatements_last given enough _ _) final

end Joined

/-- It makes no difference where a session is cut into chunks. Let a chunk end without an error and without a
top-level `return`, and let another one follow. Neither declares a function, the last token of the first is no
`return`, and the second has a statement and starts with none of `(`, `-` and `not`. Then the second chunk ends
if and only if both texts end as one chunk with a line end between them, with the same value or errors of one
kind, and the machines left behind differ in nothing but the text that errors refer to. -/
theorem chunks_joined {m mid : Machine} {fuel : Nat} {file first second : String} {ts others : List Token}
    {program more : Program} {v : Value} (before : PlainText first ts program) (after : PlainText second others more)
    (valued : ∀ t ∈ ts.getLast?, t.kind ≠ .returnWord) (nonempty : more.statements ≠ [])
    (free : ∀ t ∈ others.head?, t.kind ∉ [.openParen, .minus, .notWord])
    (ran : m.runChunk fuel file first = some (.ok v, mid)) (unreturned : topReturn? m fuel file first = none)
    (fileMore fileJoined : String) :
    (∀ enough outcome last, mid.runChunk enough fileMore second = some (outcome, last) →
      ∃ enough reply, m.runChunk enough fileJoined (first ++ "\n" ++ second) =
        some (reply, { last with source := .ofText fileJoined (first ++ "\n" ++ second) }) ∧
        SameOutcome outcome reply) ∧
    (∀ enough reply final, m.runChunk enough fileJoined (first ++ "\n" ++ second) = some (reply, final) →
      ∃ enough outcome last, mid.runChunk enough fileMore second = some (outcome, last) ∧
        SameOutcome outcome reply ∧
        final = { last with source := .ofText fileJoined (first ++ "\n" ++ second) }) := by
  obtain ⟨joined, whole, nodes, plain, statements, places⟩ := before.joined after valued nonempty free
  have given : nodes ≠ [] := by
    rintro rfl
    rw [Node.unplacedAll_eq_map, Node.unplacedAll_eq_map] at places
    exact nonempty (List.map_eq_nil_iff.mp places.symm)
  obtain ⟨reached, apart, runs⟩ := second_statements before after ran unreturned fileMore
    fileJoined (first ++ "\n" ++ second) plain.statements.1 statements given
  constructor
  · intro enough outcome last ended
    obtain ⟨result, left, evaluated, rfl, rfl⟩ := (runChunk_iff after.fragment).mp ended
    obtain ⟨reply, final, followed, together, same⟩ :=
      statements_elsewhere (sameNodes_of_unplaced _ nodes places.symm) apart evaluated
    have grown : evalStatements (max enough fuel) .empty nodes reached = some (reply, final) :=
      evalStatements_grows .empty nodes (Nat.le_max_left enough fuel) _ _ followed
    rw [← runs _ (Nat.le_max_right enough fuel)] at grown
    refine ⟨_, _, (runChunk_iff plain.fragment).mpr ⟨reply, final, grown, rfl, ?_⟩, together.outcome same⟩
    obtain ⟨⟨frame, frames⟩, _⟩ := chunk_ended evaluated
    rw [together.settled frames mid.session m.session, (chunk_ended grown).2.2]
    rfl
  · intro enough reply final ended
    obtain ⟨result, left, evaluated, rfl, rfl⟩ := (runChunk_iff plain.fragment).mp ended
    have grown : evalStatements (max enough fuel + program.statements.length) .empty whole.statements
        (chunkStart (m.setSource fileJoined (first ++ "\n" ++ second)) whole) = some (result, left) :=
      evalStatements_grows .empty whole.statements (by omega) _ _ evaluated
    rw [runs _ (Nat.le_max_right enough fuel)] at grown
    obtain ⟨reply, last, followed, together, same⟩ :=
      statements_elsewhere (sameNodes_of_unplaced nodes _ places) apart.symm grown
    refine ⟨_, _, _, (runChunk_iff after.fragment).mpr ⟨reply, last, followed, rfl, rfl⟩,
      (together.outcome same).symm, ?_⟩
    obtain ⟨⟨frame, frames⟩, _⟩ := chunk_ended followed
    rw [together.symm.settled frames mid.session m.session, (chunk_ended evaluated).2.2]
    rfl

/-- An `if` that an `else` could still follow, and behind it the call of a function that fails. -/
def sampleChunks : String × String := ("n = 2 if n == 2 n = twice(n) # four", "print(n) twice(true)")

theorem sampleChunks_join : ∃ m mid last e f enough,
    (Machine.new 0 {} "").runChunk 20 "lib" "func twice(x) \x7b return x * 2 \x7d" = some (.ok .empty, m) ∧
    m.runChunk 20 "a" sampleChunks.1 = some (.ok .empty, mid) ∧
    mid.runChunk 20 "b" sampleChunks.2 = some (.error (.runtime e), last) ∧ e.stack = ["twice"] ∧
    last.sink.writes = #["4\n"] ∧
    m.runChunk enough "c" (sampleChunks.1 ++ "\n" ++ sampleChunks.2) = some (.error (.runtime f),
      { last with source := .ofText "c" (sampleChunks.1 ++ "\n" ++ sampleChunks.2) }) ∧
    f.fault = e.fault ∧ f.stack = ["twice"] := by
  have ran : ((Machine.new 0 {} "").runChunk 20 "lib" "func twice(x) \x7b return x * 2 \x7d").bind (fun m =>
      (m.2.runChunk 20 "a" sampleChunks.1).bind fun mid => (mid.2.runChunk 20 "b" sampleChunks.2).bind fun last =>
        (tokenize sampleChunks.1).toOption.bind fun ts => (tokenize sampleChunks.2).toOption.bind fun others =>
          (parseFragment ts).toOption.bind fun program => (parseFragment others).toOption.map fun more => decide (
            m.1 = .ok .empty ∧ mid.1 = .ok .empty ∧ topReturn? m.2 20 "a" sampleChunks.1 = none ∧
            (runtimeError? last.1).map Prod.snd = some ["twice"] ∧ last.2.sink.writes = #["4\n"] ∧
            (∀ t ∈ ts, t.kind ≠ .funcWord) ∧ (∀ t ∈ others, t.kind ≠ .funcWord) ∧
            (∀ t ∈ ts.getLast?, t.kind ≠ .returnWord) ∧ more.statements.length ≠ 0 ∧
            ∀ t ∈ others.head?, t.kind ∉ [.openParen, .minus, .notWord])) = some true := by
    decide +kernel
  obtain ⟨⟨_, m⟩, declared, ran⟩ := Option.bind_eq_some_iff.mp ran
  obtain ⟨⟨_, mid⟩, first, ran⟩ := Option.bind_eq_some_iff.mp ran
  obtain ⟨⟨_, last⟩, second, ran⟩ := Option.bind_eq_some_iff.mp ran
  obtain ⟨ts, scanned, ran⟩ := Option.bind_eq_some_iff.mp ran
  obtain ⟨others, scannedToo, ran⟩ := Option.bind_eq_some_iff.mp ran
  obtain ⟨program, read, ran⟩ := Option.bind_eq_some_iff.mp ran
  obtain ⟨more, readToo, shown⟩ := Option.map_eq_some_iff.mp ran
  obtain ⟨rfl, rfl, unreturned, failed, written, bare, bareToo, valued, some, free⟩ := of_decide_eq_true shown
  obtain ⟨⟨fault, stack⟩, failed, rfl⟩ := Option.map_eq_some_iff.mp failed
  obtain ⟨e, rfl, rfl, stack⟩ := runtimeError_eq failed
  have before : PlainText sampleChunks.1 ts program := ⟨ok_of_toOption scanned, bare, ok_of_toOption read⟩
  have after : PlainText sampleChunks.2 others more := ⟨ok_of_toOption scannedToo, bareToo, ok_of_toOption readToo⟩
  have joined := (chunks_joined before after valued (by simpa using some) free first unreturned "b" "c").1
  obtain ⟨enough, reply, ended, same⟩ := joined 20 _ last second
  cases same with
  | failure same =>
    exact ⟨m, mid, last, e, _, enough, declared, first, second, stack, written, ended, same.1.symm,
      same.2.symm.trans stack⟩

end Scriptlet.Proofs.ChunkJoin
