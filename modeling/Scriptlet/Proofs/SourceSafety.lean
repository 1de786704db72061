import Scriptlet.Proofs.CallIsolation
import Scriptlet.Proofs.CallStack
import Scriptlet.Proofs.FormedProgram
import Scriptlet.Proofs.OutputTruncation
import Scriptlet.Proofs.ScopeDiscipline
import Scriptlet.Proofs.ValueDiscipline

/-! No text makes the machine fail from within. Whatever chunks have run in a session, each function that is held
anywhere was read from one of them and has a body, each built-in function exists and each number keeps to its form;
so what a text makes the machine evaluate has a meaning, and all that it makes the machine call can be called. -/

namespace Scriptlet.Proofs.SourceSafety
open Eval EvalChange EvalInduction EvalMoments ErrorOrigin ValueDiscipline FormedProgram NumberInvariant CallIsolation
  CallStack OutputTruncation ScopeDiscipline

/-- One of the texts can be read, and declares the function. -/
def ParsedFrom (texts : List String) (d : Definition) : Prop :=
  ∃ text ∈ texts, ∃ program, Program.ofFragment text = .ok program ∧ d ∈ program.functions

inductive SoundValue (texts : List String) (table : Array Definition) : Value → Prop where
  | empty : SoundValue texts table .empty
  | bool (b : Bool) : SoundValue texts table (.bool b)
  | string (s : String) : SoundValue texts table (.string s)
  | number {n : Number} (valid : Valid n) : SoundValue texts table (.number n)
  | native {name f} (known : Native.ofName? name = some f) : SoundValue texts table (.native name)
  | function {f d} (listed : table[f.index]? = some d) (named : d.name = f.name) (parsed : ParsedFrom texts d)
      (body : d.body.isAbsent = false) : SoundValue texts table (.function f)

section Values
variable {texts more : List String} {table larger : Array Definition} {value : Value}

/-- Neither further texts nor further functions take anything away. -/
theorem SoundValue.mono (sound : SoundValue texts table value) (read : texts ⊆ more)
    (grown : ∀ (i : Nat) d, table[i]? = some d → larger[i]? = some d) : SoundValue more larger value := by
  cases sound with
  | empty => exact .empty
  | bool b => exact .bool b
  | string s => exact .string s
  | number valid => exact .number valid
  | native known => exact .native known
  | function listed named parsed body =>
    obtain ⟨text, member, program, readable, declared⟩ := parsed
    exact .function (grown _ _ listed) named ⟨text, read member, program, readable, declared⟩ body

private theorem sound_of_literal (literal : LiteralValue value) : SoundValue texts table value := by
  cases literal with
  | empty => exact .empty
  | bool b => exact .bool b
  | string s => exact .string s
  | number normal => exact .number (Or.inr normal)

private theorem sound_of_computes {args : List Value} (given : ∀ v ∈ args, SoundValue texts table v)
    (computes : Computes args value) : SoundValue texts table value := by
  cases computes with
  | empty => exact .empty
  | bool b => exact .bool b
  | number normal => exact .number (Or.inr normal)
  | negative member =>
    cases given _ member with
    | number valid => exact .number (neg_valid valid)

theorem SoundValue.listed {f : FunctionRef} (sound : SoundValue texts table (.function f)) {m : Machine}
    (same : m.definitions = table) : ParsedFrom texts (m.definition f) ∧ (m.definition f).body.isAbsent = false := by
  cases sound with
  | @function _ d listed _ parsed body =>
    have found : m.definition f = d := by rw [Machine.definition, same, listed, Option.getD_some]
    rw [found]
    exact ⟨parsed, body⟩

end Values

theorem formed_part {node : Node} (formed : Formed node) : ∀ part ∈ parts node, Formed part := by
  cases formed with
  | set given => exact List.forall_mem_singleton.mpr given
  | ret given => exact List.forall_mem_singleton.mpr given
  | block statements => exact statements
  | branch condition holds => exact List.forall_mem_cons.mpr ⟨condition, List.forall_mem_singleton.mpr holds⟩
  | choice condition holds fails =>
    rw [parts, if_neg (by simp [fails.present])]
    exact List.forall_mem_cons.mpr ⟨condition, List.forall_mem_cons.mpr ⟨holds, List.forall_mem_singleton.mpr fails⟩⟩
  | loop condition holds => exact List.forall_mem_cons.mpr ⟨condition, List.forall_mem_singleton.mpr holds⟩
  | call callee given => exact List.forall_mem_cons.mpr ⟨callee, given⟩
  | _ => exact fun _ none => absurd none List.not_mem_nil

/-- Sound values and formed nodes. -/
def soundness (texts : List String) (table : Array Definition) : Discipline where
  table
  fit := SoundValue texts table
  plain := Formed
  empty := .empty
  part := formed_part
  const formed := by
    cases formed with
    | const literal => exact sound_of_literal literal
  name known := .native known
  native := sound_of_computes
  body same sound _ := by
    obtain ⟨⟨_, _, _, read, declared⟩, _⟩ := sound.listed same
    exact (formed_of_text read).2 _ declared

def SoundFrame (texts : List String) (table : Array Definition) (frame : Frame) : Prop :=
  ∀ entry ∈ frame.entries, SoundValue texts table entry.2

/-- Every value that the machine holds is sound, and the sink takes whatever is printed. -/
structure Safe (texts : List String) (m : Machine) : Prop where
  session : SoundFrame texts m.definitions m.session
  globals : SoundFrame texts m.definitions m.globals
  frames : ∀ frame ∈ m.frames, SoundFrame texts m.definitions frame
  returned : ∀ v, m.returned = some v → SoundValue texts m.definitions v
  unlimited : m.sink.room = none

section Machines
variable {texts : List String} {m after : Machine}

private theorem soundFrame_empty (texts : List String) (table : Array Definition) : SoundFrame texts table {} := nofun

theorem Safe.keeps (safe : Safe texts m) : (soundness texts m.definitions).Keeps m :=
  ⟨rfl, safe.frames, safe.globals, safe.returned⟩

private theorem safe_of_keeps {table : Array Definition} (keeps : (soundness texts table).Keeps m)
    (session : SoundFrame texts table m.session) (unlimited : m.sink.room = none) : Safe texts m := by
  cases keeps.definitions
  exact ⟨session, keeps.globals, keeps.frames, keeps.returned, unlimited⟩

/-- What evaluation does to a machine leaves it safe. -/
theorem Safe.changed (safe : Safe texts m) (keeps : (soundness texts m.definitions).Keeps after)
    (setting : SameSetting m after) (written : Appends m after) : Safe texts after := by
  refine safe_of_keeps keeps ?_ (written.room safe.unlimited)
  rw [setting.session]
  exact safe.session

end Machines

/-- The errors by which the machine would tell that it has gone wrong itself. -/
inductive Internal : RuntimeFault → Prop where
  | unsupported : Internal .unsupported
  | noBody (function : String) : Internal (.noBody function)
  | unknownNative (name : String) : Internal (.unknownNative name)
  | failure {fault : RuntimeFault} (kind : fault.kind = "native failure") : Internal fault

section Errors
variable {texts : List String} {m : Machine} {f : Native} {args : List Value}

private theorem internal_iff {fault : RuntimeFault} : Internal fault ↔ fault = .unsupported ∨
    (∃ function, fault = .noBody function) ∨ (∃ name, fault = .unknownNative name) ∨ fault = .native .refusedWrite := by
  constructor
  · intro internal
    cases internal with
    | unsupported => simp
    | noBody function => simp
    | unknownNative name => simp
    | failure kind =>
      unfold RuntimeFault.kind at kind
      split at kind <;> simp_all
  · rintro (rfl | ⟨function, rfl⟩ | ⟨name, rfl⟩ | rfl)
    · exact .unsupported
    · exact .noBody function
    · exact .unknownNative name
    · exact .failure rfl

private theorem bind_not_refused {α β : Type} {first : Except NativeFault α} {next : α → Except NativeFault β}
    (taken : first ≠ .error .refusedWrite) (applied : ∀ a, next a ≠ .error .refusedWrite) :
    (first >>= next) ≠ .error .refusedWrite := by
  cases first with
  | error fault =>
    intro refused
    cases refused
    exact taken rfl
  | ok a => exact applied a

private theorem binary_not_refused {α : Type} {take : Nat → Value → Except NativeFault α}
    {apply : α → α → Except NativeFault Value} (taken : ∀ place v, take place v ≠ .error .refusedWrite)
    (applied : ∀ a b, apply a b ≠ .error .refusedWrite) : f.binary take apply args ≠ .error .refusedWrite := by
  unfold Native.binary
  split
  · exact bind_not_refused (taken 1 _) fun a => bind_not_refused (taken 2 _) (applied a)
  · exact nofun

private theorem unary_not_refused {α : Type} {take : Nat → Value → Except NativeFault α} {apply : α → Value}
    (taken : ∀ place v, take place v ≠ .error .refusedWrite) : f.unary take apply args ≠ .error .refusedWrite := by
  unfold Native.unary
  split
  · exact bind_not_refused (taken 1 _) nofun
  · exact nofun

private theorem number_not_refused (place : Nat) (v : Value) : f.number place v ≠ .error .refusedWrite := by
  cases v <;> exact nofun

private theorem bool_not_refused (place : Nat) (v : Value) : f.bool place v ≠ .error .refusedWrite := by
  cases v <;> exact nofun

private theorem compute_not_refused : f.compute args ≠ .error .refusedWrite := by
  cases f with
  | divide =>
    refine binary_not_refused number_not_refused fun a b => ?_
    split <;> exact nofun
  | negate => exact unary_not_refused number_not_refused
  | not => exact unary_not_refused bool_not_refused
  | and => exact binary_not_refused bool_not_refused nofun
  | or => exact binary_not_refused bool_not_refused nofun
  | print => exact nofun
  | _ => exact binary_not_refused number_not_refused nofun

/-- Only a write can be refused, and only by a sink with a limit. -/
theorem apply_not_refused {sink : Sink} (unlimited : sink.room = none) :
    (f.apply args sink).1 ≠ .error .refusedWrite := by
  unfold Native.apply
  split
  · rw [write_unlimited unlimited]
    exact nofun
  · exact compute_not_refused

theorem Safe.refuses (safe : Safe texts m) {callee : Value} (sound : SoundValue texts m.definitions callee)
    {fault : RuntimeFault} (refuses : Refuses m callee args fault) : ¬Internal fault := by
  rw [internal_iff]
  cases refuses with
  | unknown unknown =>
    cases sound with
    | native known => cases unknown.symm.trans known
  | @native _ _ f fault known failed =>
    have written : fault ≠ .refusedWrite := fun same => apply_not_refused safe.unlimited (same ▸ failed)
    simp [written]
  | function refused =>
    have body := (sound.listed rfl).2
    unfold refusal? at refused
    rw [body] at refused
    split at refused
    · cases refused
      simp
    · split at refused
      · cases refused
        simp
      · cases refused
  | other _ _ => simp

end Errors

structure SafeNow (texts : List String) (now : Moment) : Prop where
  machine : Safe texts now.machine
  node : Formed now.node

/-- What has ended in this way has left the machine safe. Its value is sound, and its error comes from the program. -/
structure SafeEnd (texts : List String) (outcome : Except Failure Value) (after : Machine) : Prop where
  machine : Safe texts after
  value : ∀ v, outcome = .ok v → SoundValue texts after.definitions v
  error : ∀ e, outcome = .error (.runtime e) → ¬Internal e.fault

/-- At every moment from the first one on, what is evaluated is safe, and ends so if it ends. -/
def SafeRun (texts : List String) (first : Moment) : Prop :=
  ∀ now, Reaches first now → SafeNow texts now ∧
    ∀ fuel outcome after, eval fuel now.node now.machine = some (outcome, after) →
      SafeEnd texts (outcome.mapError .runtime) after

section Runs
variable {texts : List String} {m after : Machine} {now next first : Moment}

/-- Evaluation of formed nodes, one by one or in a row, leaves a safe machine safe. -/
theorem Safe.evaluated {α : Type} {post : α → Prop} {c : Eval α} {outcome : Except RuntimeError α} (safe : Safe texts m)
    (holds : (soundness texts m.definitions).Holds post c)
    (within : ∀ {changes}, Respected changes → Within changes c) (ran : c m = some (outcome, after)) :
    Safe texts after ∧ after.definitions = m.definitions ∧ ∀ v, outcome = .ok v → post v := by
  obtain ⟨keeps, values⟩ := holds m outcome after safe.keeps ran
  have setting := within sameSetting_respected m outcome after ran
  exact ⟨safe.changed keeps setting (within appends_respected m outcome after ran), setting.definitions, values⟩

theorem Safe.node {fuel : Nat} {node : Node} {outcome : Except RuntimeError Value} (safe : Safe texts m)
    (formed : Formed node) (ran : eval fuel node m = some (outcome, after)) :
    Safe texts after ∧ after.definitions = m.definitions ∧
      ∀ v, outcome = .ok v → SoundValue texts m.definitions v :=
  safe.evaluated (((soundness texts m.definitions).rules.all fuel).node node formed)
    (fun respected => eval_within respected fuel node) ran

theorem Safe.among {nodes : List Node} (safe : Safe texts m) (formed : ∀ node ∈ nodes, Formed node)
    (among : Among m nodes next) : SafeNow texts next :=
  have kept := safe.keeps.among formed among
  ⟨safe.changed kept.machine (among.changed sameSetting_respected) (among.changed appends_respected), kept.node⟩

/-- Neither the frame of a block nor that of a call has anything to do with the session or with the sink. -/
theorem handed_session (handed : Handed SameSetting now m) : m.session = now.machine.session := by
  cases handed with
  | part _ changed => exact changed.session
  | block changed => exact changed.session
  | call changed => exact changed.session

private theorem handed_unlimited (handed : Handed Appends now m) (unlimited : now.machine.sink.room = none) :
    m.sink.room = none := by
  cases handed with
  | part _ changed => exact changed.room unlimited
  | block changed => exact changed.room unlimited
  | call changed => exact changed.room unlimited

theorem SafeNow.starts (safe : SafeNow texts now) (starts : Starts now next) : SafeNow texts next := by
  have before : (soundness texts now.machine.definitions).KeepsNow now := ⟨safe.machine.keeps, safe.node⟩
  have kept := before.starts starts
  refine ⟨safe_of_keeps kept.machine ?_ ?_, kept.node⟩
  · rw [handed_session (starts.handed sameSetting_respected)]
    exact safe.machine.session
  · exact handed_unlimited (starts.handed appends_respected) safe.machine.unlimited

theorem SafeNow.raises {here : Machine} {position : Position} {fault : RuntimeFault} (safe : SafeNow texts now)
    (raises : Raises now here position fault) : ¬Internal fault := by
  obtain ⟨machine, node⟩ := safe
  cases raises with
  | absent => cases node
  | unknown => cases node
  | call found _ given refuses =>
    cases node with
    | call callee arguments =>
      obtain ⟨mid, same, sound⟩ := machine.node callee found
      obtain ⟨ready, still, _⟩ := mid.evaluated (((soundness texts _).rules.all _).arguments _ arguments)
        (fun respected => evalArguments_within respected _ _) given
      refine ready.refuses ?_ refuses
      rw [still, same]
      exact sound _ rfl
  | _ => simp [internal_iff]

theorem SafeNow.fails {fuel : Nat} {e : RuntimeError} (safe : SafeNow texts now)
    (failed : eval fuel now.node now.machine = some (.error e, after)) : ¬Internal e.fault := by
  obtain ⟨source, here, position, fault, reached, raises, rfl, _⟩ := error_origin failed
  exact (reached.induct (fun starts safe => safe.starts starts) safe).raises raises

/-- The value may be another than the one that the evaluation ended with. -/
theorem Safe.ends {α : Type} {result : Except RuntimeError α} (machine : Safe texts after) (value : α → Value)
    (sound : ∀ v, result = .ok v → SoundValue texts after.definitions (value v))
    (error : ∀ e, result = .error e → ¬Internal e.fault) :
    SafeEnd texts ((result.map value).mapError .runtime) after := by
  refine ⟨machine, fun v same => ?_, fun e same => ?_⟩
  · cases result with
    | error e => cases same
    | ok last =>
      cases same
      exact sound last rfl
  · cases result with
    | ok last => cases same
    | error raised =>
      cases same
      exact error e rfl

theorem SafeNow.run (safe : SafeNow texts first) : SafeRun texts first := by
  intro now reached
  have here : SafeNow texts now := reached.induct (fun starts safe => safe.starts starts) safe
  refine ⟨here, fun fuel outcome after ended => ?_⟩
  obtain ⟨still, same, values⟩ := here.machine.node here.node ended
  have ends := still.ends id (fun v given => same ▸ values v given) fun e failed => here.fails (failed ▸ ended)
  rwa [Except.map_id] at ends

end Runs

section Sessions
variable {texts : List String} {m after : Machine} {file text : String} {program : Program}

/-- The functions that a text declares are parsed from it, and the table has them from now on. -/
theorem Safe.defineAll (safe : Safe texts m) (read : Program.ofFragment text = .ok program) :
    Safe (texts ++ [text]) (m.defineAll program.functions) := by
  have same := defineAll_eq m program.functions
  have older {v} (sound : SoundValue texts m.definitions v) :
      SoundValue (texts ++ [text]) (m.defineAll program.functions).definitions v := by
    refine sound.mono (List.subset_append_left _ _) fun i d listed => ?_
    obtain ⟨inside, _⟩ := Array.getElem?_eq_some_iff.mp listed
    rw [defineAll_definitions, Array.getElem?_append_left inside, listed]
  constructor
  · rw [congrArg Machine.session same]
    exact fun entry inside => older (safe.session entry inside)
  · intro entry inside
    rcases mem_defineAll inside with before | ⟨f, d, value, declared, named, listed⟩
    · exact older (safe.globals entry before)
    · rw [value]
      exact .function listed named ⟨text, by simp, program, read, declared⟩ ((formed_of_text read).2 d declared).present
  · rw [congrArg Machine.frames same]
    exact fun frame member entry inside => older (safe.frames frame member entry inside)
  · rw [congrArg Machine.returned same]
    exact fun v given => older (safe.returned v given)
  · rw [congrArg Machine.sink same]
    exact safe.unlimited

theorem Safe.launched (safe : Safe texts m) (read : Program.ofFragment text = .ok program) :
    Safe (texts ++ [text]) (launch m program.functions) := by
  have ready : Safe texts { m with globals := {}, frames := [], returned := none, calls := [] } :=
    ⟨safe.session, soundFrame_empty _ _, nofun, nofun, safe.unlimited⟩
  exact ready.defineAll read

theorem Safe.started (safe : Safe texts m) (read : Program.ofFragment text = .ok program) :
    Safe (texts ++ [text]) (chunkStart m program) := by
  have declared := safe.defineAll read
  have session : m.session = (m.defineAll program.functions).session :=
    (congrArg Machine.session (defineAll_eq m program.functions)).symm
  refine ⟨declared.session, declared.globals, ?_, nofun, declared.unlimited⟩
  rw [chunkStart, session]
  exact List.forall_mem_singleton.mpr declared.session

theorem Safe.setSource (safe : Safe texts m) : Safe texts (m.setSource file text) :=
  ⟨safe.session, safe.globals, safe.frames, safe.returned, safe.unlimited⟩

/-- A text that cannot be read changes nothing. -/
theorem unread_ends {e : SourceError} (safe : Safe texts m) : SafeEnd (texts ++ [text]) (.error (.source e)) m := by
  have older {v} (sound : SoundValue texts m.definitions v) : SoundValue (texts ++ [text]) m.definitions v :=
    sound.mono (List.subset_append_left _ _) fun _ _ listed => listed
  have machine : Safe (texts ++ [text]) m :=
    ⟨fun entry inside => older (safe.session entry inside), fun entry inside => older (safe.globals entry inside),
      fun frame member entry inside => older (safe.frames frame member entry inside),
      fun v given => older (safe.returned v given), safe.unlimited⟩
  refine ⟨machine, fun v same => ?_, fun raised same => ?_⟩ <;> cases same

theorem Safe.outcome (safe : Safe texts m) {last : Value} (sound : SoundValue texts m.definitions last) :
    SoundValue texts m.definitions (m.outcome last) := by
  rw [Machine.outcome]
  cases returned : m.returned with
  | none => exact sound
  | some v => exact safe.returned v returned

/-- The main part of a text, run on its own. -/
theorem Safe.main (safe : Safe texts m) (read : Program.ofFragment text = .ok program) :
    SafeNow (texts ++ [text]) ⟨launch (m.setSource file text) program.functions, program.main⟩ :=
  ⟨safe.setSource.launched read, .block (formed_of_text read).1⟩

theorem Safe.runSource {fuel : Nat} {outcome : Except Failure Value} (safe : Safe texts m)
    (ran : m.runSource fuel file text = some (outcome, after)) : SafeEnd (texts ++ [text]) outcome after := by
  rw [Machine.runSource] at ran
  split at ran
  · cases ran
    exact unread_ends safe
  next program read =>
    obtain ⟨⟨_, _⟩, ran, same⟩ := Option.bind_eq_some_iff.mp ran
    cases same
    rw [Machine.run, execute_eq] at ran
    obtain ⟨⟨result, _⟩, evaluated, same⟩ := Option.map_eq_some_iff.mp ran
    cases same
    have start : SafeNow (texts ++ [text]) ⟨launch (m.setSource file text) program.functions, program.main⟩ :=
      safe.main (ofFragment_of_ofSource read)
    have machine := (start.machine.node start.node evaluated).1
    exact machine.ends _ (fun _ _ => machine.outcome .empty) fun e failed => start.fails (failed ▸ evaluated)

theorem Safe.runChunk {fuel : Nat} {outcome : Except Failure Value} (safe : Safe texts m)
    (ran : m.runChunk fuel file text = some (outcome, after)) : SafeEnd (texts ++ [text]) outcome after := by
  rcases runChunk_cases ran with ⟨e, _, rfl, rfl⟩ | ⟨program, result, reached, read, evaluated, rfl, rfl⟩
  · exact unread_ends safe.setSource
  · have formed := (formed_of_text read).1
    have start : Safe (texts ++ [text]) (chunkStart (m.setSource file text) program) :=
      safe.setSource.started read
    obtain ⟨ended, table, values⟩ := start.evaluated
      (((soundness _ _).rules.all fuel).statements .empty program.statements .empty formed)
      (fun respected => evalStatements_within respected fuel _ _) evaluated
    have session : SoundFrame (texts ++ [text]) reached.definitions (reached.frames.headD m.session) := by
      cases frames : reached.frames with
      | nil =>
        rw [table]
        exact start.frames m.session List.mem_cons_self
      | cons frame outer => exact ended.frames frame (frames ▸ List.mem_cons_self)
    have machine : Safe (texts ++ [text])
        { reached with session := reached.frames.headD m.session, returned := none } :=
      ⟨session, ended.globals, ended.frames, by simp, ended.unlimited⟩
    refine machine.ends _ (fun v given => ended.outcome (table ▸ values v given)) fun e failed => ?_
    obtain ⟨next, among, _, _, stopped⟩ := evalStatements_failed (failed ▸ evaluated)
    exact (start.among formed among).fails stopped

/-- After any chunks on a new machine every value is sound. -/
theorem safe_of_session {start : Machine} (fresh : Fresh start) (unlimited : start.sink.room = none)
    (session : Session start texts m) : Safe texts m := by
  induction session with
  | start =>
    rcases fresh with ⟨_, _, _, rfl⟩ | ⟨_, rfl⟩ <;>
      exact ⟨soundFrame_empty _ _, soundFrame_empty _ _, nofun, nofun, unlimited⟩
  | chunk _ ran ih => exact (ih.runChunk ran).machine

end Sessions

/-- After any chunks, and while and after any text runs on what they have left, every value that the machine holds is
sound, every node that it evaluates is formed, and no error is an internal one. -/
theorem internal_failures_unreachable (start m : Machine) (texts : List String) (fresh : Fresh start)
    (unlimited : start.sink.room = none) (session : Session start texts m) :
    Safe texts m ∧ ∀ file text,
      (∀ program, Program.ofSource text = .ok program →
        SafeRun (texts ++ [text]) ⟨launch (m.setSource file text) program.functions, program.main⟩) ∧
      (∀ program first, Program.ofFragment text = .ok program →
        Among (chunkStart (m.setSource file text) program) program.statements first → SafeRun (texts ++ [text]) first) ∧
      ∀ fuel outcome after,
        m.runSource fuel file text = some (outcome, after) ∨ m.runChunk fuel file text = some (outcome, after) →
        SafeEnd (texts ++ [text]) outcome after := by
  have safe := safe_of_session fresh unlimited session
  refine ⟨safe, fun file text => ⟨?_, ?_, ?_⟩⟩
  · intro program read
    exact (safe.main (ofFragment_of_ofSource read)).run
  · intro program first read among
    exact ((safe.setSource.started read).among (formed_of_text read).1 among).run
  · intro fuel outcome after ran
    rcases ran with ran | ran
    · exact safe.runSource ran
    · exact safe.runChunk ran

/-- A function and a built-in one are kept under other names. Then the function is declared anew, and called with the
built-in one as its argument. -/
def sampleTexts : List String :=
  ["func f(g) \x7b return g(g) \x7d h = f p = print", "func f(q, x) \x7b q(x) return -x \x7d n = f(p, 1 / 3)"]

/-- A third chunk, which calls the function that was declared first, ends at the depth limit. A program that does so
on its own knows no such function. -/
theorem sampleTexts_safe :
    ∃ m, Session (Machine.new 3 {} "") sampleTexts m ∧ m.session.get? "h" = some (.function ⟨"f", 0⟩) ∧
      m.globals.get? "f" = some (.function ⟨"f", 1⟩) ∧ Safe sampleTexts m ∧
      (∃ e after, m.runChunk 20 "" "h(h)" = some (.error (.runtime e), after) ∧ e.fault = .overflow 3 "f" ∧
        SafeEnd (sampleTexts ++ ["h(h)"]) (.error (.runtime e)) after) ∧
      (∃ e after, m.runSource 20 "" "h(h)" = some (.error (.runtime e), after) ∧ e.fault = .unknownVariable "h" ∧
        SafeEnd (sampleTexts ++ ["h(h)"]) (.error (.runtime e)) after) ∧
      ∃ program first, Program.ofSource "h(h)" = .ok program ∧
        SafeRun (sampleTexts ++ ["h(h)"]) ⟨launch (m.setSource "" "h(h)") program.functions, program.main⟩ ∧
        Program.ofFragment "h(h)" = .ok program ∧
        Among (chunkStart (m.setSource "" "h(h)") program) program.statements first ∧
        SafeRun (sampleTexts ++ ["h(h)"]) first := by
  have ran : (((Machine.new 3 {} "").runChunk 20 "" sampleTexts[0]).bind fun first =>
      (first.2.runChunk 20 "" sampleTexts[1]).bind fun second =>
        (second.2.runChunk 20 "" "h(h)").bind fun third =>
          (second.2.runSource 20 "" "h(h)").map fun alone => decide (
            second.2.session.get? "h" = some (.function ⟨"f", 0⟩) ∧
            second.2.globals.get? "f" = some (.function ⟨"f", 1⟩) ∧
            runtimeError? third.1 = some (.overflow 3 "f", ["f", "f", "f"]) ∧
            runtimeError? alone.1 = some (.unknownVariable "h", []))) = some true := by
    decide +kernel
  obtain ⟨_, first, ran⟩ := Option.bind_eq_some_iff.mp ran
  obtain ⟨⟨_, m⟩, second, ran⟩ := Option.bind_eq_some_iff.mp ran
  obtain ⟨⟨_, deep⟩, third, ran⟩ := Option.bind_eq_some_iff.mp ran
  obtain ⟨⟨_, other⟩, alone, shown⟩ := Option.map_eq_some_iff.mp ran
  obtain ⟨held, declared, overflow, unknown⟩ := of_decide_eq_true shown
  obtain ⟨limit, rfl, overflows, _⟩ := runtimeError_eq overflow
  obtain ⟨missing, rfl, misses, _⟩ := runtimeError_eq unknown
  have session : Session (Machine.new 3 {} "") sampleTexts m := (Session.start.chunk first).chunk second
  obtain ⟨safe, runs⟩ := internal_failures_unreachable (Machine.new 3 {} "") m sampleTexts (Or.inl ⟨3, {}, "", rfl⟩)
    rfl session
  obtain ⟨programs, chunks, ends⟩ := runs "" "h(h)"
  have parsed : ((Program.ofSource "h(h)").toOption.bind (·.statements.head?)).isSome = true := by
    decide +kernel
  obtain ⟨node, parsed⟩ := Option.isSome_iff_exists.mp parsed
  obtain ⟨program, accepted, head⟩ := Option.bind_eq_some_iff.mp parsed
  have read : Program.ofSource "h(h)" = .ok program := by
    cases source : Program.ofSource "h(h)" with
    | error e => simp [source, Except.toOption] at accepted
    | ok other => simpa [source, Except.toOption] using accepted
  obtain ⟨rest, statements⟩ := List.head?_eq_some_iff.mp head
  have among : Among (chunkStart (m.setSource "" "h(h)") program) program.statements
      ⟨chunkStart (m.setSource "" "h(h)") program, node⟩ := statements ▸ .first
  exact ⟨m, session, held, declared, safe, ⟨limit, deep, third, overflows, ends _ _ _ (Or.inr third)⟩,
    ⟨missing, other, alone, misses, ends _ _ _ (Or.inl alone)⟩, program, _, read, programs program read,
    ofFragment_of_ofSource read, among, chunks program _ (ofFragment_of_ofSource read) among⟩

end Scriptlet.Proofs.SourceSafety
