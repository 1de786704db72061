import Mathlib.Control.Monad.Basic
import Scriptlet.Proofs.ErrorOrigin
import Scriptlet.Proofs.EvalInduction
import Scriptlet.Proofs.ScopeView

/-! A sink with limited room only cuts a run short. Whatever has been written has no influence on what is evaluated,
so as long as there is room the run is the one on an unlimited sink; and the first write for which there is none is
an error, which no construct holds up. -/

namespace Scriptlet.Proofs.OutputTruncation
open Eval EvalFuel StructuredReturn EvalChange EvalInduction EvalMoments ErrorOrigin ScopeView

/-- What a sink with room for `k` writes has taken and still has room for, where an unlimited one has taken all. -/
def cut (k : Nat) (sink : Sink) : Sink := ⟨some (k - sink.writes.size), sink.writes.take k⟩

section Sinks
variable {k : Nat} {sink : Sink} {text : String}

theorem write_unlimited (unlimited : sink.room = none) :
    sink.write? text = some { sink with writes := sink.writes.push text } := by
  rw [Sink.write?, unlimited]

private theorem cut_of_le (room : sink.writes.size ≤ k) : (cut k sink).writes = sink.writes := by
  rw [cut, Array.take_eq_extract, Array.extract_eq_self_of_le room]

/-- With room left, the limited sink takes the text as the unlimited one does. -/
theorem write_cut (room : sink.writes.size < k) :
    (cut k sink).write? text = some (cut k { sink with writes := sink.writes.push text }) := by
  obtain ⟨spare, left⟩ := Nat.exists_eq_add_of_lt room
  have before : k - sink.writes.size = spare + 1 := by omega
  have after : k - (sink.writes.push text).size = spare := by
    rw [Array.size_push]
    omega
  have pushed : (sink.writes.push text).take k = (sink.writes.take k).push text := by
    rw [Array.take_eq_extract, Array.take_eq_extract, Array.extract_push, if_neg (by omega), if_pos (Nat.zero_le _),
      Array.extract_eq_self_of_le (Nat.le_of_lt room), Array.extract_size]
  simp only [cut, Sink.write?, before, after, pushed]

private theorem write_cut_full (full : sink.writes.size = k) : (cut k sink).write? text = none := by
  simp only [cut, Sink.write?, full, Nat.sub_self]

/-- What comes after the last write that was taken changes nothing for the limited sink. -/
theorem cut_append {other : Sink} {more : Array String} (full : k ≤ sink.writes.size)
    (appended : other.writes = sink.writes ++ more) : cut k other = cut k sink := by
  have none : k - sink.writes.size = 0 := by omega
  have still : k - (sink.writes ++ more).size = 0 := by
    rw [Array.size_append]
    omega
  have same : (sink.writes ++ more).take k = sink.writes.take k := by
    simp [Array.extract_append, none]
  rw [cut, cut, appended, same, none, still]

end Sinks

/-- The machine with a limited sink in place of its unlimited one. -/
def limited (k : Nat) (m : Machine) : Machine := { m with sink := cut k m.sink }

structure Appends (m after : Machine) : Prop where
  room : m.sink.room = none → after.sink.room = none
  writes : m.sink.room = none → ∃ more, after.sink.writes = m.sink.writes ++ more

private theorem appends_of_sink {m after : Machine} (same : after.sink = m.sink) : Appends m after := by
  refine ⟨fun unlimited => ?_, fun _ => ⟨#[], ?_⟩⟩
  · rw [same, unlimited]
  · rw [same, Array.append_empty]

private theorem appends_trans {m mid after : Machine} (first : Appends m mid) (second : Appends mid after) :
    Appends m after := by
  refine ⟨fun unlimited => second.room (first.room unlimited), fun unlimited => ?_⟩
  obtain ⟨some, before⟩ := first.writes unlimited
  obtain ⟨others, written⟩ := second.writes (first.room unlimited)
  exact ⟨some ++ others, by rw [written, before, Array.append_assoc]⟩

private theorem appends_apply (m : Machine) (f : Native) (args : List Value) :
    Appends m { m with sink := (f.apply args m.sink).2 } := by
  unfold Native.apply
  split
  · refine ⟨fun unlimited => ?_, fun unlimited => ⟨#[Native.printed args], ?_⟩⟩
    · simp only [write_unlimited unlimited, unlimited]
    · simp only [write_unlimited unlimited, Array.push_eq_append]
  · exact appends_of_sink rfl

theorem appends_respected : Respected Appends where
  refl m := appends_of_sink rfl
  trans := appends_trans
  assign m name value := by
    rw [assign_eq]
    exact appends_of_sink rfl
  record m value := appends_of_sink rfl
  write := appends_apply
  block inside := ⟨inside.room, inside.writes⟩
  call inside := ⟨inside.room, inside.writes⟩

section FollowsWithin
variable {k : Nat} {α β : Type}

/-- How a computation ends on the limited sink if it ends in this way on the unlimited one: in the same way, if there
was room for all that it wrote, and else with a refused write behind the last one that there was room for. -/
inductive AnswersWithin (k : Nat) (outcome : Except RuntimeError α) (after : Machine) :
    Option (Except RuntimeError α × Machine) → Prop where
  | kept (room : after.sink.writes.size ≤ k) : AnswersWithin k outcome after (some (outcome, limited k after))
  | refused {e stopped} (beyond : k < after.sink.writes.size) (fault : e.fault = .native .refusedWrite)
      (sink : stopped.sink = cut k after.sink) : AnswersWithin k outcome after (some (.error e, stopped))

/-- On the unlimited sink the computation only appends, and on the limited one it answers as described. -/
structure FollowsWithin (k : Nat) (c : Eval α) : Prop where
  appends : Within Appends c
  answers : ∀ m, m.sink.room = none → m.sink.writes.size ≤ k →
    ∀ outcome after, c m = some (outcome, after) → AnswersWithin k outcome after (c (limited k m))

/-- A computation that neither writes nor looks at the sink. -/
theorem follows_silent {c : Eval α} (result : Machine → Except RuntimeError α × Machine)
    (ran : ∀ m, c m = some (result m))
    (silent : ∀ m, (result m).2.sink = m.sink)
    (blind : ∀ m, result (limited k m) = ((result m).1, limited k (result m).2)) : FollowsWithin k c where
  appends := by
    intro m outcome after ended
    have same := Option.some.inj ((ran m).symm.trans ended)
    exact appends_of_sink ((congrArg (·.2.sink) same).symm.trans (silent m))
  answers := by
    intro m _ room outcome after ended
    have same := Option.some.inj ((ran m).symm.trans ended)
    rw [ran, blind, same]
    refine .kept ?_
    rwa [← congrArg (·.2.sink) same, silent]

theorem FollowsWithin.bind {first : Eval α} {next : α → Eval β} (part : FollowsWithin k first)
    (rest : ∀ m v mid, first m = some (.ok v, mid) → FollowsWithin k (next v)) : FollowsWithin k (first >>= next) where
  appends := .bind appends_respected part.appends fun m v mid ran => (rest m v mid ran).appends
  answers := by
    intro m unlimited room outcome after ended
    rw [bind_apply] at ended ⊢
    cases ran : first m with
    | none => simp [ran] at ended
    | some result =>
      obtain ⟨result, mid⟩ := result
      have written := part.appends m result mid ran
      have answer := part.answers m unlimited room result mid ran
      generalize first (limited k m) = reply at answer
      rw [ran] at ended
      cases result with
      | error e =>
        cases ended
        cases answer with
        | kept room => exact .kept room
        | refused beyond fault sink => exact .refused beyond fault sink
      | ok v =>
        have later := rest m v mid ran
        cases answer with
        | kept room => exact later.answers mid (written.room unlimited) room outcome after ended
        | refused beyond fault sink =>
          -- The unlimited run goes on, but what it writes now the limited one would not have kept anyway.
          obtain ⟨more, appended⟩ := (later.appends mid outcome after ended).writes (written.room unlimited)
          refine .refused ?_ fault (sink.trans (cut_append (Nat.le_of_lt beyond) appended).symm)
          rw [appended, Array.size_append]
          omega

/-- What is done to a result afterwards, on both sinks, has nothing to do with them. -/
theorem AnswersWithin.map {outcome : Except RuntimeError Value} {after : Machine}
    {reply : Option (Except RuntimeError Value × Machine)} (answers : AnswersWithin k outcome after reply)
    (change : Except RuntimeError Value × Machine → Except RuntimeError Value × Machine)
    (fails : ∀ e m, (change (.error e, m)).1 = .error e)
    (silent : ∀ result, (change result).2.sink = result.2.sink)
    (blind : ∀ outcome m, change (outcome, limited k m) = ((change (outcome, m)).1, limited k (change (outcome, m)).2)) :
    AnswersWithin k (change (outcome, after)).1 (change (outcome, after)).2 (reply.map change) := by
  cases answers with
  | kept room =>
    rw [Option.map_some, blind]
    exact .kept (by rwa [silent])
  | @refused e stopped beyond fault sink =>
    have same : change (.error e, stopped) = (.error e, (change (.error e, stopped)).2) :=
      Prod.ext (fails e stopped) rfl
    rw [Option.map_some, same]
    exact .refused (by rwa [silent]) fault (by rw [silent, silent]; exact sink)

theorem follows_get (p : Position) (name : String) : FollowsWithin k (eval 1 (.get p name)) := by
  refine follows_silent _ (fun m => eval_get 0 p name m) (fun _ => rfl) fun m => ?_
  have same : (limited k m).lookup name = m.lookup name := rfl
  rw [same]
  cases m.lookup name <;> rfl

theorem FollowsWithin.inFrame {body : Eval Value} (inside : FollowsWithin k body) :
    FollowsWithin k (inFrame body) where
  appends := inside.appends.inFrame appends_respected
  answers := by
    intro m unlimited room outcome after ended
    rw [inFrame_apply] at ended ⊢
    obtain ⟨⟨result, mid⟩, ran, done⟩ := Option.map_eq_some_iff.mp ended
    cases done
    exact (inside.answers (enterBlock m) unlimited room _ mid ran).map (fun result => (result.1, leaveBlock result.2))
      (fun _ _ => rfl) (fun _ => rfl) fun _ _ => rfl

private theorem follows_function (p : Position) (f : FunctionRef) (args : List Value) {run : Node → Eval Value}
    (inside : ∀ node, FollowsWithin k (run node)) : FollowsWithin k (callFunction p f args run) where
  appends := .callFunction appends_respected (fun node => (inside node).appends) p f args
  answers := by
    intro m unlimited room outcome after ended
    have known : (limited k m).definition f = m.definition f := rfl
    have refused : refusal? (limited k m) f args = refusal? m f args := rfl
    rw [callFunction_eq] at ended ⊢
    rw [refused, known]
    cases met : refusal? m f args with
    | some fault =>
      rw [met] at ended
      cases ended
      exact .kept room
    | none =>
      simp only [met, inCall_eq] at ended ⊢
      obtain ⟨⟨result, mid⟩, ran, done⟩ := Option.map_eq_some_iff.mp ended
      cases done
      -- The caller's frames are the same on both sinks.
      exact ((inside _).answers (beginCall m (m.definition f) args) unlimited room result mid ran).map
        (fun result => (result.1.map fun _ => result.2.returned.getD .empty, endCall m result.2)) (fun _ _ => rfl)
        (fun _ => rfl) fun _ _ => rfl

/-- Where a limited sink refuses a text the unlimited one has taken one more than there was room for. -/
theorem answers_apply (p : Position) (f : Native) (args : List Value) {m : Machine} (unlimited : m.sink.room = none)
    (room : m.sink.writes.size ≤ k) :
    AnswersWithin k ((f.apply args m.sink).1.mapError fun fault => m.error p (.native fault))
      { m with sink := (f.apply args m.sink).2 }
      (some ((f.apply args (cut k m.sink)).1.mapError fun fault => m.error p (.native fault),
        { m with sink := (f.apply args (cut k m.sink)).2 })) := by
  by_cases prints : f = .print
  · simp only [Native.apply, if_pos prints, write_unlimited unlimited]
    rcases Nat.lt_or_eq_of_le room with less | full
    · simp only [write_cut less]
      exact .kept (by rwa [Array.size_push])
    · simp only [write_cut_full full]
      refine .refused (by simp [full]) rfl ?_
      exact (cut_append (Nat.le_of_eq full.symm) Array.push_eq_append).symm
  · simp only [Native.apply, if_neg prints]
    exact .kept room

theorem follows_native (p : Position) (name : String) (args : List Value) :
    FollowsWithin k (callNative p name args) where
  appends := within_native appends_respected p name args
  answers := by
    intro m unlimited room outcome after ended
    rw [callNative_eq] at ended ⊢
    cases known : Native.ofName? name with
    | none =>
      rw [known] at ended
      cases ended
      exact .kept room
    | some f =>
      rw [known] at ended
      cases ended
      exact answers_apply p f args unlimited room

private theorem follows_steps (k : Nat) : Steps (FollowsWithin k) where
  outOfFuel := by
    refine ⟨fun m outcome after ran => ?_, fun m _ _ outcome after ran => ?_⟩ <;> cases ran
  pure v := follows_silent _ (pure_apply v) (fun _ => rfl) fun _ => rfl
  fail p fault := follows_silent _ (fail_apply p fault) (fun _ => rfl) fun _ => rfl
  isReturning := follows_silent _ isReturning_apply (fun _ => rfl) fun _ => rfl
  bind := FollowsWithin.bind
  get := follows_get
  assign name v := by
    refine follows_silent _ (fun _ => rfl) (fun m => ?_) fun m => ?_
    · rw [assign_eq]
    · simp only [assign_eq]
      rfl
  record v := follows_silent _ (fun _ => rfl) (fun _ => rfl) fun _ => rfl
  inFrame := FollowsWithin.inFrame
  native := follows_native
  function p f args _ inside := follows_function p f args inside

end FollowsWithin

private theorem launch_limited (k : Nat) (m : Machine) (functions : List Definition) :
    launch (limited k m) functions = limited k (launch m functions) := by
  have declared : ∀ (functions : List Definition) (n : Machine),
      (limited k n).defineAll functions = limited k (n.defineAll functions) := by
    intro functions
    induction functions with
    | nil => exact fun n => rfl
    | cons d functions ih => exact fun n => ih (n.define d)
  exact declared functions { m with globals := {}, frames := [], returned := none, calls := [] }

private theorem execute_limited {k : Nat} {m after : Machine} {fuel : Nat} {functions : List Definition} {main : Node}
    {outcome : Except RuntimeError Value} (unlimited : m.sink.room = none) (room : m.sink.writes.size ≤ k)
    (ended : m.execute fuel functions main = some (outcome, after)) :
    AnswersWithin k outcome after ((limited k m).execute fuel functions main) := by
  rw [execute_eq] at ended ⊢
  obtain ⟨⟨result, reached⟩, ran, done⟩ := Option.map_eq_some_iff.mp ended
  cases done
  have start : (launch m functions).sink = m.sink := by
    rw [launch, defineAll_eq]
  have answers := ((follows_steps k).node fuel main).answers (launch m functions) (by rwa [start]) (by rwa [start])
    result _ ran
  rw [launch_limited]
  exact answers.map (fun result => (result.1.map fun _ => result.2.outcome .empty, result.2)) (fun _ _ => rfl)
    (fun _ => rfl) fun _ _ => rfl

/-- The same machine with nothing written yet and room for so many writes. -/
def withRoom (m : Machine) (k : Nat) : Machine := { m with sink := ⟨some k, #[]⟩ }

/-- A program that has ended on an unlimited sink ends on one with room for `k` writes in the same way if it made no
more of them. Otherwise it ends with an error, behind the first `k` writes; and since the refused one, with which the
error was raised, nothing has been written or set. -/
theorem limited_sink_truncates (m : Machine) (fresh : m.sink = {}) (fuel : Nat) (functions : List Definition)
    (main : Node) (outcome : Except RuntimeError Value) (after : Machine)
    (ended : m.execute fuel functions main = some (outcome, after)) (k : Nat) :
    (after.sink.writes.size ≤ k → ∃ final, (withRoom m k).execute fuel functions main = some (outcome, final) ∧
      final.sink.writes = after.sink.writes ∧ final = { after with sink := final.sink }) ∧
    (k < after.sink.writes.size → ∃ e final, (withRoom m k).execute fuel functions main = some (.error e, final) ∧
      e.fault.kind = "native failure" ∧ final.sink.writes = after.sink.writes.take k ∧
      ∃ now here position, Reaches ⟨launch (withRoom m k) functions, main⟩ now ∧
        Raises now here position (.native .refusedWrite) ∧ e = here.error position (.native .refusedWrite) ∧
        Unwound here final) := by
  have start : withRoom m k = limited k m := by
    simp [withRoom, limited, fresh, cut]
  have answers : AnswersWithin k outcome after ((limited k m).execute fuel functions main) :=
    execute_limited (by rw [fresh]) (by rw [fresh]; exact Nat.zero_le k) ended
  rw [start]
  generalize reply : (limited k m).execute fuel functions main = result at answers
  constructor
  · intro room
    cases answers with
    | kept _ => exact ⟨_, rfl, cut_of_le room, rfl⟩
    | refused beyond _ _ => omega
  · intro beyond
    cases answers with
    | kept room => omega
    | @refused e final _ fault sink =>
      refine ⟨e, final, rfl, by rw [fault]; rfl, by rw [sink]; rfl, ?_⟩
      rw [execute_eq] at reply
      obtain ⟨⟨result, reached⟩, ran, done⟩ := Option.map_eq_some_iff.mp reply
      cases result with
      | ok value => cases done
      | error _ =>
        cases done
        obtain ⟨now, here, position, raised, path, raises, rfl, unwound⟩ :=
          @error_origin _ _ _ ⟨launch (limited k m) functions, main⟩ ran
        cases fault
        exact ⟨now, here, position, path, raises, rfl, unwound⟩

/-- `func say(x) { print(x) return x }`. -/
def sampleSay : Definition :=
  ⟨"say", ["x"], .block {} [.call {} (.get {} "print") [.get {} "x"], .ret {} (.get {} "x")]⟩

/-- `{ say(say("a")) say = "b" print(say) }`. -/
def sampleTalk : Node := .block {} [
  .call {} (.get {} "say") [.call {} (.get {} "say") [.const {} (.string "a")]],
  .set {} "say" (.const {} (.string "b")),
  .call {} (.get {} "print") [.get {} "say"]]

/-- A program with three writes ends with room for three as it does without a limit, and with room for one at the
second of them. -/
theorem sampleTalk_truncated :
    ∃ after, (Machine.new 5 {} "").execute 20 [sampleSay] sampleTalk = some (.ok .empty, after) ∧
      after.sink.writes = #["a\n", "a\n", "b\n"] ∧
      (∃ final, (withRoom (Machine.new 5 {} "") 3).execute 20 [sampleSay] sampleTalk = some (.ok .empty, final) ∧
        final.sink.writes = #["a\n", "a\n", "b\n"]) ∧
      ∃ e final, (withRoom (Machine.new 5 {} "") 1).execute 20 [sampleSay] sampleTalk = some (.error e, final) ∧
        e.fault.kind = "native failure" ∧ final.sink.writes = #["a\n"] := by
  have ran : ((Machine.new 5 {} "").execute 20 [sampleSay] sampleTalk).map (fun result =>
      (result.1, result.2.sink.writes)) = some (.ok .empty, #["a\n", "a\n", "b\n"]) := by
    decide +kernel
  obtain ⟨⟨_, after⟩, ended, shown⟩ := Option.map_eq_some_iff.mp ran
  obtain ⟨rfl, writes⟩ := Prod.mk.inj shown
  have truncated := limited_sink_truncates (Machine.new 5 {} "") rfl 20 [sampleSay] sampleTalk _ after ended
  obtain ⟨all, allEnded, same, _⟩ := (truncated 3).1 (by rw [writes]; decide)
  obtain ⟨e, one, oneEnded, kind, first, _⟩ := (truncated 1).2 (by rw [writes]; decide)
  refine ⟨after, ended, writes, ⟨all, allEnded, same.trans writes⟩, e, one, oneEnded, kind, ?_⟩
  rw [first, writes]
  rfl

end Scriptlet.Proofs.OutputTruncation
