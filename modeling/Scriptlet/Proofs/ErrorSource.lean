import Scriptlet.Proofs.CallIsolation
import Scriptlet.Proofs.CallStack
import Scriptlet.Proofs.LoopFreeTermination

/-! The text that an error refers to. A node keeps the place where it was read, but not the text. The machine has one
text at a time, that of the chunk that is running, and every error takes its file and its line from there; so an error
that is raised in a function of an earlier chunk shows the place in the one text beside a line of the other. -/

namespace Scriptlet.Proofs.ErrorSource
open EvalChange EvalInduction EvalMoments ErrorOrigin CallIsolation CallStack ScopeDiscipline ValueDiscipline
open LoopFreeTermination (Contains)

structure Chunk where
  file : String
  text : String

def Chunk.functions (chunk : Chunk) : List Definition :=
  match Program.ofFragment chunk.text with
  | .ok program => program.functions
  | .error _ => []

def authors (chunks : List Chunk) : List (Chunk × Definition) :=
  chunks.flatMap fun chunk => chunk.functions.map (chunk, ·)

/-- The chunks that have run since the start, and the machine they left. -/
inductive History (start : Machine) : List Chunk → Machine → Prop where
  | start : History start [] start
  | chunk {chunks m fuel file text outcome after} (earlier : History start chunks m)
      (ran : m.runChunk fuel file text = some (outcome, after)) : History start (chunks ++ [⟨file, text⟩]) after

section Table
variable {start m after : Machine} {chunks : List Chunk} {file text : String} {program : Program}

private theorem authors_append (chunks : List Chunk) (chunk : Chunk) :
    (authors (chunks ++ [chunk])).map Prod.snd = (authors chunks).map Prod.snd ++ chunk.functions := by
  simp [authors, List.flatMap_append, Function.comp_def]

private theorem chunkStart_definitions (m : Machine) (read : Program.ofFragment text = .ok program) :
    (chunkStart (m.setSource file text) program).definitions.toList =
      m.definitions.toList ++ Chunk.functions ⟨file, text⟩ := by
  have same : Chunk.functions ⟨file, text⟩ = program.functions := by rw [Chunk.functions, read]
  rw [same]
  change ((m.setSource file text).defineAll program.functions).definitions.toList = _
  rw [defineAll_definitions, Array.toList_append]
  rfl

theorem History.table (fresh : Fresh start) (history : History start chunks m) :
    m.definitions.toList = (authors chunks).map Prod.snd := by
  induction history with
  | start => rcases fresh with ⟨_, _, _, rfl⟩ | ⟨_, rfl⟩ <;> rfl
  | @chunk chunks m fuel file text outcome after _ ran ih =>
    rw [authors_append, ← ih]
    rcases runChunk_cases ran with ⟨e, unread, _, rfl⟩ | ⟨program, _, reached, read, evaluated, _, rfl⟩
    · rw [Chunk.functions, unread, List.append_nil]
      rfl
    · have setting := evalStatements_within sameSetting_respected fuel _ _ _ _ _ evaluated
      rw [setting.definitions]
      exact chunkStart_definitions m read

end Table

/-- The chunk that a node was read from: the one that is running if no function is active, or else the one that
declared the innermost active function. -/
inductive ReadFrom (chunks : List Chunk) (running : Chunk) : List Definition → Chunk → Node → Prop where
  | statement {program whole node} (read : Program.ofFragment running.text = .ok program)
      (member : whole ∈ program.statements) (inside : Contains whole node) : ReadFrom chunks running [] running node
  | body {i : Nat} {author d active node} (declared : (authors (chunks ++ [running]))[i]? = some (author, d))
      (inside : Contains d.body node) : ReadFrom chunks running (d :: active) author node

section Moments
variable {now next first : Moment} {active : List Definition} {d : Definition} {here : Machine}
  {position : Position} {fault : RuntimeFault} {chunks : List Chunk} {running author : Chunk}

theorem starts_setting (starts : Starts now next) : SameSetting now.machine next.machine := by
  obtain ⟨machine, node⟩ := next
  cases starts.handed sameSetting_respected with
  | part _ changed => exact changed
  | block changed => exact ⟨changed.definitions, changed.session, changed.source, changed.depthLimit⟩
  | call changed => exact ⟨changed.definitions, changed.session, changed.source, changed.depthLimit⟩

theorem active_setting (path : Active first active now) : SameSetting first.machine now.machine := by
  induction path with
  | start => exact sameSetting_respected.refl _
  | part _ starts _ ih => exact sameSetting_respected.trans ih (starts_setting starts)
  | body _ enters ih => exact sameSetting_respected.trans ih (starts_setting enters.starts)

/-- A function that is called has its definition in the table, since it has a body. -/
theorem enters_listed (enters : Enters now d next) :
    next.node = d.body ∧ ∃ i : Nat, now.machine.definitions[i]? = some d := by
  cases enters with
  | @body m p function arguments fuel f mid more args ready first _ given accepted =>
    have setting := sameSetting_respected.trans (eval_within sameSetting_respected _ _ _ _ _ first)
      (evalArguments_within sameSetting_respected _ _ _ _ _ given)
    refine ⟨rfl, f.index, ?_⟩
    have body := (accepted_of_refusal accepted).given
    rw [← setting.definitions]
    unfold Machine.definition at body ⊢
    cases listed : ready.definitions[f.index]? with
    | some d => rfl
    | none =>
      rw [listed] at body
      cases body

/-- What is evaluated inside a call is the body of the function, or a part of it. -/
theorem active_readFrom {program : Program} (path : Active first active now)
    (read : Program.ofFragment running.text = .ok program) (member : first.node ∈ program.statements)
    (table : first.machine.definitions.toList = (authors (chunks ++ [running])).map Prod.snd) :
    ∃ author, ReadFrom chunks running active author now.node := by
  induction path with
  | start => exact ⟨running, .statement read member .refl⟩
  | part earlier starts inner ih =>
    obtain ⟨author, readFrom⟩ := ih
    refine ⟨author, ?_⟩
    rcases starts_cases starts with ⟨d, enters⟩ | ⟨_, part | ⟨_, again⟩⟩
    · exact absurd enters (inner d)
    · cases readFrom with
      | statement read member inside => exact .statement read member (inside.tail part)
      | body declared inside => exact .body declared (inside.tail part)
    · rwa [again]
  | body earlier enters _ =>
    obtain ⟨node, i, listed⟩ := enters_listed enters
    rw [(active_setting earlier).definitions, ← Array.getElem?_toList, table, List.getElem?_map] at listed
    obtain ⟨⟨author, d⟩, declared, rfl⟩ := Option.map_eq_some_iff.mp listed
    rw [node]
    exact ⟨author, .body declared .refl⟩

theorem raises_position (raises : Raises now here position fault) :
    ∃ node, Contains now.node node ∧ node.position = position := by
  cases raises with
  | absent => exact ⟨_, .refl, rfl⟩
  | unknown => exact ⟨_, .refl, rfl⟩
  | get _ => exact ⟨_, .refl, rfl⟩
  | member => exact ⟨_, .refl, rfl⟩
  | branch _ _ _ => exact ⟨_, .single List.mem_cons_self, rfl⟩
  | loop _ _ _ => exact ⟨_, .single List.mem_cons_self, rfl⟩
  | call _ _ _ _ => exact ⟨_, .refl, rfl⟩

theorem raises_setting (raises : Raises now here position fault) : SameSetting now.machine here := by
  obtain ⟨fuel, failed⟩ := raises.fails
  exact eval_within sameSetting_respected fuel _ _ _ _ failed

theorem ReadFrom.part {whole node : Node} (readFrom : ReadFrom chunks running active author whole)
    (inside : Contains whole node) : ReadFrom chunks running active author node := by
  cases readFrom with
  | statement read member outer => exact .statement read member (outer.trans inside)
  | body declared outer => exact .body declared (outer.trans inside)

end Moments

/-- Every error of a session names the chunk that was running when it was raised, and the line that this chunk has at
the place of the failing node. The node itself was read from that chunk only if no function was active, or if that
chunk declared the innermost active one; otherwise it was read from the chunk that did. -/
theorem error_names_running_chunk (start m after : Machine) (chunks : List Chunk) (fuel : Nat) (file text : String)
    (e : RuntimeError) (fresh : Fresh start) (history : History start chunks m)
    (failed : m.runChunk fuel file text = some (.error (.runtime e), after)) :
    e.file = file ∧ e.line = (Source.ofText file text).line e.position.line ∧
    ∃ program first active now here author node,
      Program.ofFragment text = .ok program ∧
      Among (chunkStart (m.setSource file text) program) program.statements first ∧
      Active first active now ∧ Raises now here e.position e.fault ∧ e.stack = active.map Definition.name ∧
      Contains now.node node ∧ node.position = e.position ∧ ReadFrom chunks ⟨file, text⟩ active author node := by
  obtain ⟨program, reached, read, evaluated⟩ := runChunk_failed failed
  obtain ⟨first, among, less, _, raised⟩ := evalStatements_failed evaluated
  obtain ⟨outside, _⟩ := statement_outside among
  obtain ⟨active, now, here, position, fault, path, raises, rfl, stack, _, _⟩ := traced_of_failed outside raised
  have begun : SameSetting (chunkStart (m.setSource file text) program) first.machine :=
    among.changed sameSetting_respected
  have setting := sameSetting_respected.trans begun
    (sameSetting_respected.trans (active_setting path) (raises_setting raises))
  have source : here.source = .ofText file text := by
    rw [setting.source, chunkStart, defineAll_eq]
    rfl
  have table : first.machine.definitions.toList = (authors (chunks ++ [⟨file, text⟩])).map Prod.snd := by
    rw [begun.definitions, chunkStart_definitions m read, history.table fresh, authors_append]
  obtain ⟨author, readFrom⟩ := active_readFrom path read (among_mem among) table
  obtain ⟨node, inside, place⟩ := raises_position raises
  refine ⟨congrArg Source.file source, ?_, program, first, active, now, here, author, node, read, among, path, raises,
    stack, inside, place, readFrom.part inside⟩
  exact congrArg (fun s : Source => s.line position.line) source

/-- `func f(a) { return a + missing }`. -/
def sampleDeclaring : Chunk := ⟨"one", "func f(a) \x7b return a + missing \x7d"⟩

def sampleCalling : Chunk := ⟨"two", "f(1)"⟩

theorem sampleCalling_fails_in_sampleDeclaring :
    ∃ m after e active author node, History (Machine.new 0 {} "") [sampleDeclaring] m ∧
      m.runChunk 20 sampleCalling.file sampleCalling.text = some (.error (.runtime e), after) ∧
      e.file = sampleCalling.file ∧
      e.line = (Source.ofText sampleCalling.file sampleCalling.text).line e.position.line ∧
      node.position = e.position ∧ ReadFrom [sampleDeclaring] sampleCalling active author node ∧
      author.file = sampleDeclaring.file := by
  have ran : ((Machine.new 0 {} "").runChunk 20 sampleDeclaring.file sampleDeclaring.text).bind (fun first =>
      (first.2.runChunk 20 sampleCalling.file sampleCalling.text).bind (runtimeError? ·.1)) =
        some (.unknownVariable "missing", ["f"]) := by
    decide +kernel
  obtain ⟨⟨_, m⟩, once, ran⟩ := Option.bind_eq_some_iff.mp ran
  obtain ⟨⟨_, after⟩, twice, shown⟩ := Option.bind_eq_some_iff.mp ran
  obtain ⟨e, rfl, _, stack⟩ := runtimeError_eq shown
  have history : History (Machine.new 0 {} "") [sampleDeclaring] m := History.start.chunk once
  obtain ⟨file, line, _, _, active, _, _, author, node, _, _, _, _, names, _, place, readFrom⟩ :=
    error_names_running_chunk (Machine.new 0 {} "") m after [sampleDeclaring] 20 sampleCalling.file sampleCalling.text e
      (Or.inl ⟨0, {}, "", rfl⟩) history twice
  have listed : (authors ([sampleDeclaring] ++ [sampleCalling])).map (·.1.file) = [sampleDeclaring.file] := by
    decide +kernel
  refine ⟨m, after, e, active, author, node, history, twice, file, line, place, readFrom, ?_⟩
  cases readFrom with
  | statement _ _ _ =>
    rw [stack] at names
    cases names
  | @body i _ _ _ _ declared _ =>
    have member : author.file ∈ (authors ([sampleDeclaring] ++ [sampleCalling])).map (·.1.file) :=
      List.mem_map.mpr ⟨_, List.mem_of_getElem? declared, rfl⟩
    rw [listed] at member
    exact List.mem_singleton.mp member

/-- The variable that is not found stands in column 24 of the text of the first chunk. The error names the second one,
whose only line does not reach that far. -/
theorem error_shows_line_of_other_chunk :
    ((Machine.new 0 {} "").runChunk 20 sampleDeclaring.file sampleDeclaring.text).bind (fun first =>
      (first.2.runChunk 20 sampleCalling.file sampleCalling.text).map Prod.fst) =
      some (.error (.runtime ⟨.unknownVariable "missing", ⟨1, 24⟩, "two", "f(1)", ["f"]⟩)) ∧
    (authors [sampleDeclaring, sampleCalling]).map (fun entry => (entry.1.file, entry.2.name)) = [("one", "f")] := by
  decide +kernel

end Scriptlet.Proofs.ErrorSource
