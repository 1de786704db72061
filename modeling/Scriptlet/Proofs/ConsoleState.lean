import Scriptlet.Console.Basic
import Scriptlet.Proofs.SourceScan

/-! What the console keeps between two lines. Lines are kept for one of three reasons, an open brace, an `if` that an
`else` may still follow, or paste mode, and no two of these hold at once. So the prompt tells what is kept, and a single
interrupt gives all of it up. -/

namespace Scriptlet.Proofs.ConsoleState
open Console SourceScan

theorem textOf_nil : textOf [] = "" := rfl

theorem textOf_cons (line : String) (lines : List String) : textOf (line :: lines) = line ++ "\n" ++ textOf lines := by
  cases lines with
  | nil => simp [textOf]
  | cons next lines => simp [textOf, String.intercalate_cons_cons]

private theorem textOf_eq_empty {lines : List String} : textOf lines = "" ↔ lines = [] := by
  cases lines with
  | nil => simp [textOf_nil]
  | cons line lines => simp [textOf_cons, String.append_eq_empty_iff]

/-- The text of the lines that are kept outside paste mode. -/
def lineBuffer (input : Input) : String := textOf input.lines

/-- The text of the lines of paste mode. -/
def pasteBuffer (input : Input) : String := textOf input.pasted

structure Consistent (input : Input) : Prop where
  /-- What is held is complete. -/
  held : input.held = true → input.depth = 0
  /-- Outside paste mode lines are kept for an open brace or for an `else`, and for nothing else. -/
  typing : input.pasteMode = false →
    pasteBuffer input = "" ∧ (lineBuffer input ≠ "" ↔ 0 < input.depth ∨ input.held = true)
  pasting : input.pasteMode = true → lineBuffer input = "" ∧ input.depth = 0 ∧ input.held = false

section Input
variable {input : Input} {line : String}

/-- Nothing is kept, unless it is the lines of paste mode. -/
structure NothingKept (input : Input) : Prop where
  lines : input.lines = []
  depth : input.depth = 0
  held : input.held = false
  pasted : input.pasteMode = false → input.pasted = []

/-- Neither paste mode nor anything that was left of it. -/
structure Typing (input : Input) : Prop where
  mode : input.pasteMode = false
  pasted : input.pasted = []

/-- Lines are kept outside paste mode, for one of two reasons. -/
structure Waiting (input : Input) : Prop extends Typing input where
  lines : input.lines ≠ []
  reason : 0 < input.depth ∧ input.held = false ∨ input.depth = 0 ∧ input.held = true

theorem Consistent.toTyping (consistent : Consistent input) (mode : input.pasteMode = false) : Typing input :=
  ⟨mode, textOf_eq_empty.mp (consistent.typing mode).1⟩

theorem Consistent.nothingKept_or_waiting (consistent : Consistent input) : NothingKept input ∨ Waiting input := by
  cases pasting : input.pasteMode with
  | true =>
    obtain ⟨lines, depth, held⟩ := consistent.pasting pasting
    exact Or.inl ⟨textOf_eq_empty.mp lines, depth, held, fun typing => absurd typing (by simp [pasting])⟩
  | false =>
    have typing := consistent.toTyping pasting
    have kept := (consistent.typing pasting).2
    rw [lineBuffer, ne_eq, textOf_eq_empty] at kept
    by_cases lines : input.lines = []
    · have neither := not_or.mp (mt kept.mpr (not_not.mpr lines))
      exact Or.inl ⟨lines, Nat.eq_zero_of_not_pos neither.1, Bool.eq_false_iff.mpr neither.2, fun _ => typing.pasted⟩
    · refine Or.inr ⟨typing, lines, ?_⟩
      cases held : input.held with
      | true => exact Or.inr ⟨consistent.held held, rfl⟩
      | false => exact Or.inl ⟨(kept.mp lines).resolve_right (by simp [held]), rfl⟩

theorem NothingKept.consistent (idle : NothingKept input) : Consistent input where
  held _ := idle.depth
  typing typing := by
    refine ⟨textOf_eq_empty.mpr (idle.pasted typing), ?_⟩
    simp [lineBuffer, idle.lines, textOf_nil, idle.depth, idle.held]
  pasting _ := ⟨textOf_eq_empty.mpr idle.lines, idle.depth, idle.held⟩

theorem Waiting.consistent (waiting : Waiting input) : Consistent input where
  held held := by
    rcases waiting.reason with ⟨_, other⟩ | ⟨depth, _⟩
    · rw [held] at other
      cases other
    · exact depth
  typing _ := by
    refine ⟨textOf_eq_empty.mpr waiting.pasted, ?_⟩
    rw [lineBuffer, ne_eq, textOf_eq_empty]
    refine iff_of_true waiting.lines ?_
    rcases waiting.reason with ⟨depth, _⟩ | ⟨_, held⟩
    · exact Or.inl depth
    · exact Or.inr held
  pasting pasting := absurd waiting.mode (by simp [pasting])

/-- The line is taken for a command. -/
structure Commands (input : Input) (line : String) : Prop where
  depth : input.depth = 0
  lines : input.lines = []
  colon : (trimmed line).startsWith ":" = true

/-- Outside paste mode, a line that is no command is put behind those that are kept, and then the lines are kept on, or
all of them are run. -/
inductive Taken (input : Input) (line : String) : Input × List Event → Prop where
  | opened {depth : Nat} (opened : 0 < depth) :
      Taken input line ({ input with lines := input.lines ++ [line], depth, held := false }, [])
  | held : Taken input line ({ input with lines := input.lines ++ [line], depth := 0, held := true }, [])
  | complete : Taken input line (Input.flush { input with lines := input.lines ++ [line], depth := 0, held := false })

theorem Taken.typing {result : Input × List Event} (taken : Taken input line result) (typing : Typing input) :
    Typing result.1 := by
  cases taken <;> exact ⟨typing.mode, typing.pasted⟩

/-- The lines stay, but are no longer held. -/
def released (input : Input) : Input := { input with held := false }

theorem Typing.released (typing : Typing input) : Typing (released input) := ⟨typing.mode, typing.pasted⟩

theorem Commands.released (commands : Commands input line) : Commands (released input) line :=
  ⟨commands.depth, commands.lines, commands.colon⟩

private theorem feedLine_command (commands : Commands input line) : input.feedLine line =
    (if Command.ofLine (trimmed line) = .paste then { input with pasted := [], pasteMode := true } else input,
      [.command (.ofLine (trimmed line))]) := by
  rw [Input.feedLine, if_pos ⟨commands.depth, List.isEmpty_iff.mpr commands.lines, commands.colon⟩]

theorem feedLine_plain (plain : ¬Commands input line) : (released input).feedLine line =
    let kept := { input with lines := input.lines ++ [line], depth := openBraces input.depth line, held := false }
    if 0 < kept.depth then (kept, [])
    else if endsWithIf (textOf kept.lines) then ({ kept with held := true }, []) else kept.flush := by
  rw [Input.feedLine, if_neg fun given => plain ⟨given.1, List.isEmpty_iff.mp given.2.1, given.2.2⟩]
  rfl

theorem feedLine_taken (plain : ¬Commands input line) : Taken input line ((released input).feedLine line) := by
  rw [feedLine_plain plain]
  dsimp only
  split
  · exact .opened ‹_›
  next closed =>
    rw [Nat.eq_zero_of_not_pos closed]
    split
    · exact .held
    · exact .complete

/-- Running what is kept leaves nothing. -/
theorem flush_fst (typing : Typing input) : input.flush.1 = {} := by
  rw [Input.flush, typing.mode, typing.pasted]

private theorem feed_pasting (pasting : input.pasteMode = true) : input.feed line = input.feedPasted line := by
  rw [Input.feed, if_pos pasting]

/-- Lines that are not held, or that the line continues by an `else`, stay. -/
theorem feed_joining (mode : input.pasteMode = false)
    (joins : input.held = true → startsWithElse (trimmed line) = true) :
    input.feed line = (released input).feedLine line := by
  rw [Input.feed, if_neg (by simp [mode])]
  cases held : input.held with
  | true =>
    rw [if_pos rfl, if_pos (joins held)]
    rfl
  | false => rw [if_neg Bool.false_ne_true, released, ← held]

/-- Held lines are run before any other line. -/
theorem feed_parting (typing : Typing input) (held : input.held = true)
    (apart : startsWithElse (trimmed line) = false) : input.feed line =
      if (trimmed line).isEmpty then ({}, input.flush.2)
      else ((Input.feedLine {} line).1, input.flush.2 ++ (Input.feedLine {} line).2) := by
  have flushed : (Input.flush { input with held := false }).1 = {} := @flush_fst (released input) typing.released
  rw [Input.feed, if_neg (by simp [typing.mode]), if_pos held, if_neg (by simp [apart])]
  dsimp only
  rw [flushed]
  rfl

private theorem nothingKept_empty : NothingKept {} := ⟨rfl, rfl, rfl, fun _ => rfl⟩

private theorem consistent_empty : Consistent {} := nothingKept_empty.consistent

/-- Running what is kept does not touch paste mode and its lines. -/
theorem Consistent.flush (consistent : Consistent input) : Consistent input.flush.1 :=
  NothingKept.consistent ⟨rfl, rfl, rfl, fun mode => (consistent.toTyping mode).pasted⟩

theorem Taken.consistent {result : Input × List Event} (taken : Taken input line result)
    (typing : Typing input) : Consistent result.1 := by
  have after := taken.typing typing
  cases taken with
  | opened opened => exact Waiting.consistent ⟨after, by simp, .inl ⟨opened, rfl⟩⟩
  | held => exact Waiting.consistent ⟨after, by simp, .inr ⟨rfl, rfl⟩⟩
  | complete => exact NothingKept.consistent ⟨rfl, rfl, rfl, fun _ => after.pasted⟩

theorem Consistent.feedLine (consistent : Consistent input) (mode : input.pasteMode = false) (line : String) :
    Consistent ((released input).feedLine line).1 := by
  by_cases commands : Commands input line
  · rw [feedLine_command commands.released]
    rcases consistent.nothingKept_or_waiting with idle | waiting
    · dsimp only
      split
      · exact NothingKept.consistent ⟨idle.lines, idle.depth, rfl, fun _ => rfl⟩
      · exact NothingKept.consistent ⟨idle.lines, idle.depth, rfl, idle.pasted⟩
    · exact absurd commands.lines waiting.lines
  · exact (feedLine_taken commands).consistent (consistent.toTyping mode)

/-- A line in paste mode touches nothing but paste mode and its lines, and its lines are dropped where it ends. -/
theorem NothingKept.feedPasted (idle : NothingKept input) (pasting : input.pasteMode = true) (line : String) :
    NothingKept (input.feedPasted line).1 := by
  rw [Input.feedPasted]
  split
  · exact ⟨idle.lines, idle.depth, idle.held, fun _ => rfl⟩
  · exact ⟨idle.lines, idle.depth, idle.held, fun _ => rfl⟩
  · exact ⟨idle.lines, idle.depth, idle.held, fun _ => rfl⟩
  · exact ⟨idle.lines, idle.depth, idle.held, fun typing => by cases pasting.symm.trans typing⟩

theorem Consistent.feed (consistent : Consistent input) (line : String) : Consistent (input.feed line).1 := by
  cases pasting : input.pasteMode with
  | true =>
    rw [feed_pasting pasting]
    have idle := consistent.nothingKept_or_waiting.resolve_right fun waiting => by
      rw [waiting.mode] at pasting
      cases pasting
    exact (idle.feedPasted pasting line).consistent
  | false =>
    by_cases joins : input.held = true → startsWithElse (trimmed line) = true
    · rw [feed_joining pasting joins]
      exact consistent.feedLine pasting line
    · obtain ⟨held, apart⟩ := Classical.not_imp.mp joins
      rw [feed_parting (consistent.toTyping pasting) held (Bool.eq_false_iff.mpr apart)]
      split
      · exact consistent_empty
      · have fresh : Consistent (Input.feedLine {} line).1 := consistent_empty.feedLine rfl line
        simpa only using fresh

/-- An interrupt gives up all that is kept, and at most tells of it. -/
theorem Consistent.interrupt (consistent : Consistent input) :
    input.interrupt = ({}, []) ∨ ∃ text, input.interrupt = ({}, [.notice text]) := by
  obtain ⟨lines, depth, held, pasteMode, pasted⟩ := input
  rcases consistent.nothingKept_or_waiting with ⟨rfl, rfl, rfl, empty⟩ | ⟨⟨rfl, rfl⟩, kept, _⟩
  · cases pasteMode with
    | false =>
      cases empty rfl
      exact Or.inl rfl
    | true => exact Or.inr ⟨_, rfl⟩
  · refine Or.inr ⟨"^C (buffer cleared)", ?_⟩
    rw [Input.interrupt, if_neg (by simp), if_pos (Or.inl (by simpa using kept))]

theorem Consistent.prompt (consistent : Consistent input) : input.prompt = "...> " ↔ lineBuffer input ≠ "" := by
  rw [Input.prompt]
  cases pasting : input.pasteMode with
  | true =>
    have none := (consistent.pasting pasting).1
    simp [none]
  | false =>
    rw [(consistent.typing pasting).2]
    by_cases kept : 0 < input.depth ∨ input.held = true
    · simp [kept]
    · simp [kept]

theorem colon_iff (text : String) : text.startsWith ":" = true ↔ ∃ rest, text.toList = ':' :: rest := by
  rw [String.startsWith_string_iff]
  constructor
  · rintro ⟨rest, whole⟩
    exact ⟨rest, whole.symm⟩
  · rintro ⟨rest, whole⟩
    exact ⟨rest, whole.symm⟩

/-- No token starts with a colon. -/
theorem colon_starts_no_else {text : String} (colon : text.startsWith ":" = true) : startsWithElse text = false := by
  obtain ⟨rest, whole⟩ := (colon_iff text).mp colon
  have unread : tokenize text = .error ⟨.unknownCharacter ':', .start⟩ := by
    rw [tokenize, tokens_eq, Reader.ofText, whole]
    rfl
  rw [startsWithElse, unread]

private theorem not_mem_feedPasted (c : Command) : Event.command c ∉ (input.feedPasted line).2 := by
  rw [Input.feedPasted]
  split
  · dsimp only
    split <;> simp
  · dsimp only
    split <;> simp
  · simp
  · simp

private theorem not_mem_flush (c : Command) : Event.command c ∉ input.flush.2 := by
  rw [Input.flush]
  dsimp only
  split <;> simp

theorem Taken.not_mem {result : Input × List Event} (taken : Taken input line result) (c : Command) :
    Event.command c ∉ result.2 := by
  cases taken with
  | opened => simp
  | held => simp
  | complete => exact not_mem_flush c

/-- A line that starts with a colon is a command unless it stands in paste mode or behind an open brace. -/
theorem Consistent.mem_feed (consistent : Consistent input) (colon : (trimmed line).startsWith ":" = true)
    (c : Command) : Event.command c ∈ (input.feed line).2 ↔
      input.pasteMode = false ∧ input.depth = 0 ∧ c = .ofLine (trimmed line) := by
  have apart := colon_starts_no_else colon
  cases pasting : input.pasteMode with
  | true =>
    rw [feed_pasting pasting]
    simp [not_mem_feedPasted]
  | false =>
    simp only [true_and]
    by_cases held : input.held = true
    · have some : (trimmed line).isEmpty = false := by
        obtain ⟨rest, whole⟩ := (colon_iff _).mp colon
        rw [← Bool.not_eq_true, String.isEmpty_iff]
        intro empty
        rw [empty] at whole
        cases whole
      rw [feed_parting (consistent.toTyping pasting) held apart, some, feedLine_command ⟨rfl, rfl, colon⟩]
      simp [not_mem_flush, consistent.held held]
    · rw [feed_joining pasting (fun other => absurd other held)]
      by_cases depth : input.depth = 0
      · rcases consistent.nothingKept_or_waiting with idle | waiting
        · rw [feedLine_command (Commands.released ⟨depth, idle.lines, colon⟩)]
          simp [depth]
        · rcases waiting.reason with ⟨opened, _⟩ | ⟨_, other⟩
          · omega
          · exact absurd other held
      · have plain : ¬Commands input line := fun commands => depth commands.depth
        simp [(feedLine_taken plain).not_mem, depth]

end Input

section Console
variable {console after : Console} {fuel : Nat} {read : Command.ReadFile} {reply : Reply}

private theorem runChunk_input {source : String} (ran : console.runChunk fuel source = some (after, reply)) :
    after.input = console.input := by
  obtain ⟨⟨outcome, machine⟩, _, ran⟩ := Option.bind_eq_some_iff.mp ran
  cases ran
  rfl

private theorem command_input {c : Command} (handled : console.command fuel read c = some (after, reply)) :
    after.input = console.input := by
  cases c with
  | load path =>
    simp only [Console.command] at handled
    split at handled
    · cases handled
      rfl
    · split at handled
      · cases handled
        rfl
      · exact runChunk_input handled
  | vars =>
    simp only [Console.command] at handled
    split at handled <;> cases handled <;> rfl
  | funcs =>
    simp only [Console.command] at handled
    split at handled <;> cases handled <;> rfl
  | _ =>
    cases handled
    rfl

private theorem handleAll_input {events : List Event}
    (handled : console.handleAll fuel read events = some (after, reply)) :
    after.input = console.input := by
  induction events generalizing console after reply with
  | nil =>
    cases handled
    rfl
  | cons event events ih =>
    obtain ⟨⟨next, first⟩, now, handled⟩ := Option.bind_eq_some_iff.mp handled
    obtain ⟨⟨last, others⟩, later, handled⟩ := Option.bind_eq_some_iff.mp handled
    cases handled
    rw [ih later]
    cases event with
    | run source => exact runChunk_input now
    | command c => exact command_input now
    | notice text =>
      cases now
      rfl

end Console

/-- The calls that a console takes. -/
inductive Call where
  | feed (line : String)
  | flush
  | interrupt

/-- What a call does to the lines that are kept, and what it leads to. -/
def Call.taken (input : Input) : Call → Input × List Event
  | feed line => input.feed line
  | flush => input.flush
  | interrupt => input.interrupt

def Call.run (fuel : Nat) (read : Command.ReadFile) (console : Console) : Call → Option (Console × Reply)
  | feed line => console.feed fuel read line
  | flush => console.finish fuel read
  | interrupt => console.interrupt fuel read

theorem Call.run_eq (call : Call) (fuel : Nat) (read : Command.ReadFile) (console : Console) :
    call.run fuel read console =
      { console with input := (call.taken console.input).1 }.handleAll fuel read (call.taken console.input).2 := by
  cases call <;> rfl

/-- The consoles that a new one can become by any sequence of calls. Each call that has come to its end took some number
of steps, and found some files to read. -/
inductive ReachedConsole (options : Command.Options) (color : Bool) : Console → Prop where
  | new : ReachedConsole options color (Console.new options color)
  | call {console after : Console} {call : Call} {fuel : Nat} {read : Command.ReadFile} {reply : Reply}
      (earlier : ReachedConsole options color console) (ended : call.run fuel read console = some (after, reply)) :
      ReachedConsole options color after

section Runs
variable {options : Command.Options} {color : Bool} {console : Console}

theorem Consistent.taken {input : Input} (consistent : Consistent input) (call : Call) :
    Consistent (call.taken input).1 := by
  cases call with
  | feed line => exact consistent.feed line
  | flush => exact consistent.flush
  | interrupt =>
    rcases consistent.interrupt with same | ⟨text, same⟩
    · simp only [Call.taken, same, consistent_empty]
    · simp only [Call.taken, same, consistent_empty]

theorem ReachedConsole.consistent (reached : ReachedConsole options color console) : Consistent console.input := by
  induction reached with
  | new => exact consistent_empty
  | @call console after call fuel read reply _ ended ih =>
    rw [Call.run_eq] at ended
    rw [handleAll_input ended]
    exact ih.taken call

/-- An interrupt is always at its end at once, and takes nothing but the lines that are kept. -/
theorem Consistent.interrupted (consistent : Consistent console.input) (fuel : Nat) (read : Command.ReadFile) :
    ∃ reply, console.interrupt fuel read = some ({ console with input := {} }, reply) := by
  rcases consistent.interrupt with same | ⟨text, same⟩
  · exact ⟨{}, by rw [Console.interrupt, same]; rfl⟩
  · exact ⟨(say text).append {}, by rw [Console.interrupt, same]; rfl⟩

theorem Consistent.notices {input : Input} (consistent : Consistent input) :
    ∀ event ∈ input.interrupt.2, ∃ text, event = .notice text := by
  rcases consistent.interrupt with same | ⟨text, same⟩
  · simp [same]
  · simp [same]

end Runs

/-- After any sequence of calls what a console keeps is consistent, the prompt tells whether lines are kept, a line that
starts with a colon is a command unless it stands in paste mode or behind an open brace, and one interrupt leads back to
a console that keeps nothing, with the same machine and without a run. -/
theorem reached_console_consistent {options : Command.Options} {color : Bool} {console : Console}
    (reached : ReachedConsole options color console) :
    Consistent console.input ∧
    (console.input.prompt = "...> " ↔ lineBuffer console.input ≠ "") ∧
    (∀ line, (trimmed line).startsWith ":" = true → ∀ c, Event.command c ∈ (console.input.feed line).2 ↔
      console.input.pasteMode = false ∧ console.input.depth = 0 ∧ c = .ofLine (trimmed line)) ∧
    (∀ event ∈ console.input.interrupt.2, ∃ text, event = .notice text) ∧
    ∀ fuel read, ∃ after reply, console.interrupt fuel read = some (after, reply) ∧
      after.input.prompt = "kody> " ∧ lineBuffer after.input = "" ∧ pasteBuffer after.input = "" ∧
      after.machine = console.machine ∧ after.chunks = console.chunks := by
  have consistent := reached.consistent
  refine ⟨consistent, consistent.prompt, fun line colon c => consistent.mem_feed colon c, consistent.notices, ?_⟩
  intro fuel read
  obtain ⟨reply, interrupted⟩ := consistent.interrupted fuel read
  exact ⟨_, reply, interrupted, rfl, rfl, rfl, rfl, rfl⟩

def noFiles : Command.ReadFile := (Command.Folder.mk []).read

/-- A chunk has run, and an `if` over two lines is held. A command would be taken, and an interrupt drops the `if`. -/
theorem heldBranch_interrupted :
    ∃ console, ReachedConsole {} false console ∧ console.input = ⟨["if x > 0 \x7b", "x \x7d"], 0, true, false, []⟩ ∧
      console.chunks = 1 ∧ console.input.prompt = "...> " ∧
      Event.command .vars ∈ (console.input.feed " :vars").2 ∧
      ∃ after reply, console.interrupt 0 noFiles = some (after, reply) ∧
        after.input.prompt = "kody> " ∧ after.machine = console.machine ∧ after.chunks = 1 := by
  have ran : ((Console.new {} false).feed 20 noFiles "x = 1").bind (fun first =>
      (first.1.feed 20 noFiles "if x > 0 \x7b").bind fun second =>
        (second.1.feed 20 noFiles "x \x7d").map fun third => decide (
          third.1.input = ⟨["if x > 0 \x7b", "x \x7d"], 0, true, false, []⟩ ∧ third.1.chunks = 1)) = some true := by
    decide +kernel
  obtain ⟨⟨first, _⟩, once, ran⟩ := Option.bind_eq_some_iff.mp ran
  obtain ⟨⟨second, _⟩, twice, ran⟩ := Option.bind_eq_some_iff.mp ran
  obtain ⟨⟨console, _⟩, thrice, shown⟩ := Option.map_eq_some_iff.mp ran
  obtain ⟨kept, chunks⟩ := of_decide_eq_true shown
  have reached : ReachedConsole {} false console :=
    .call (.call (.call .new (show (Call.feed "x = 1").run _ _ _ = _ from once))
      (show (Call.feed "if x > 0 \x7b").run _ _ _ = _ from twice)) (show (Call.feed "x \x7d").run _ _ _ = _ from thrice)
  obtain ⟨_, prompt, commands, _, interrupted⟩ := reached_console_consistent reached
  obtain ⟨after, reply, now, idle, _, _, machine, same⟩ := interrupted 0 noFiles
  refine ⟨console, reached, kept, chunks, ?_, ?_, after, reply, now, idle, machine, same.trans chunks⟩
  · rw [prompt, kept]
    decide
  · rw [commands " :vars" (by decide +kernel), kept]
    decide +kernel

end Scriptlet.Proofs.ConsoleState
