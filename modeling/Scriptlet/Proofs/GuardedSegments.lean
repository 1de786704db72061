import Scriptlet.Proofs.GuardedReader
import Scriptlet.Proofs.SegmentBounds

/-! The watchful reader finds the end of every statement, as the grammar has it, and meets with no mishap on the way. -/

namespace Scriptlet.Proofs.GuardedReader
open Grammar GrammarSegments SegmentBounds

section Sound
variable {α β : Type}

@[simp] theorem sound_ok_bind (a : α) (next : α → Guarded β) : (sound (.ok a) >>= next) = next a := rfl

@[simp] theorem sound_map (f : α → β) (outcome : Except ParseError α) :
    f <$> sound outcome = sound (outcome.map f) := by
  cases outcome <;> rfl

theorem ok_bind (a : α) (next : α → Except ParseError β) :
    ((Except.ok a : Except ParseError α) >>= next) = next a := rfl

theorem pure_eq_sound (a : α) : (pure a : Guarded α) = sound (.ok a) := rfl

/-- What follows needs to be without a mishap only where there is something for it to follow. -/
theorem sound_bind {outcome : Except ParseError α} {next : α → Guarded β} {after : α → Except ParseError β}
    (sounds : ∀ a, outcome = .ok a → next a = sound (after a)) : (sound outcome >>= next) = sound (outcome >>= after) := by
  cases outcome with
  | error e => rfl
  | ok a => exact sounds a rfl

@[simp] theorem attempt_sound (outcome : Except ParseError α) :
    attempt (sound outcome) = sound (.ok outcome.toOption) :=
  rfl

end Sound

section Access
variable {ts : List Token} {t : Token} {i j : Int} {m n : Nat}

theorem token_eq (there : ts[n]? = some t) (index : i = n) : token ts i = sound (.ok t) := by
  subst index
  rw [token, if_pos (Int.natCast_nonneg n), Int.toNat_natCast, there]
  rfl

@[simp] theorem token_front (t : Token) (rest : List Token) : token (t :: rest) 0 = sound (.ok t) := rfl

@[simp] theorem slice_tail (t : Token) (rest : List Token) :
    slice (t :: rest) 1 (t :: rest).length = sound (.ok rest) := by
  have inside : (0 : Int) ≤ 1 ∧ (1 : Int) ≤ (t :: rest).length ∧ ((t :: rest).length : Int) ≤ (t :: rest).length := by
    rw [List.length_cons]
    omega
  rw [slice, if_pos inside, Int.toNat_natCast, List.take_length]
  rfl

theorem slice_eq (first : i = m) (last : j = n) (order : m ≤ n) (bound : n ≤ ts.length) :
    slice ts i j = sound (.ok ((ts.take n).drop m)) := by
  subst first last
  rw [slice, if_pos (by omega), Int.toNat_natCast, Int.toNat_natCast]
  rfl

theorem slice_behind (first : i = m) (bound : m ≤ ts.length) : slice ts i ts.length = sound (.ok (ts.drop m)) := by
  rw [slice_eq first rfl bound (Nat.le_refl _), List.take_length]

theorem slice_before (last : j = n) (bound : n ≤ ts.length) : slice ts 0 j = sound (.ok (ts.take n)) := by
  exact slice_eq (m := 0) rfl last (Nat.zero_le n) bound

private theorem cutAtIndex_eq (index : i = n) (bound : n ≤ ts.length) :
    cutAtIndex ts i = sound (.ok (ts.take n, ts.drop n)) := by
  rw [cutAtIndex, slice_before index bound, slice_behind index bound]
  rfl

private theorem cutAtIndex_measured {outcome : Except ParseError Nat} (bounds : ∀ n, outcome = .ok n → n ≤ ts.length) :
    (do cutAtIndex ts (← sound outcome)) = sound (outcome.map fun n => (ts.take n, ts.drop n)) := by
  cases outcome with
  | error e => rfl
  | ok n => exact cutAtIndex_eq rfl (bounds n rfl)

end Access

def Stage.rank : Stage → Nat
  | tree => 2
  | search | statement => 1
  | branch | loop => 0

/-- A call has more weight than the calls it makes. -/
def weight (call : Stage × Nat) : Nat := 3 * call.2 + call.1.rank

/-- All active calls have more weight. -/
def Below (active : OpenCalls) (bound : Nat) : Prop := ∀ call ∈ active, bound < weight call

theorem enter_eq {stage : Stage} {ts : List Token} {active : OpenCalls}
    (below : Below active (weight (stage, ts.length))) :
    enter stage ts active = sound (.ok ((stage, ts.length) :: active)) := by
  have shorter : ∀ call ∈ active, call.1 = stage → ts.length < call.2 := by
    intro call member same
    have heavier := below call member
    simp only [weight, same] at heavier
    omega
  rw [enter, if_pos shorter]
  rfl

theorem Below.deeper {active : OpenCalls} {call : Stage × Nat} {bound : Nat} (below : Below active (weight call))
    (lighter : bound < weight call) : Below (call :: active) bound := by
  intro other member
  rcases List.mem_cons.mp member with rfl | inside
  · exact lighter
  · exact Nat.lt_trans lighter (below other inside)

section Brackets
variable {opening closing : TokenKind} {ts rest : List Token} {t : Token} {i count : Nat}

theorem token_of_drop (there : ts.drop i = t :: rest) : ts[i]? = some t := by
  rw [← List.head?_drop, there, List.head?_cons]

theorem drop_succ_of_drop (there : ts.drop i = t :: rest) : ts.drop (i + 1) = rest := by
  rw [← List.drop_drop, there, List.drop_one, List.tail_cons]

theorem lt_of_drop (there : ts.drop i = t :: rest) : i < ts.length := by
  have lengths := congrArg List.length there
  rw [List.length_drop, List.length_cons] at lengths
  omega

/-- From a place inside of some brackets. -/
theorem partner_inside (depth : Nat) (enough : ts.length - i < count) :
    partner opening closing ts count i (depth + 1 : Nat) =
      sound (.ok ((closing? opening closing (depth + 1) (ts.drop i)).map (i + · - 1))) := by
  induction count generalizing i depth with
  | zero => omega
  | succ count ih =>
    cases there : ts.drop i with
    | nil =>
      rw [partner, if_pos (List.drop_eq_nil_iff.mp there)]
      rfl
    | cons t rest =>
      have inside := lt_of_drop there
      have onward (depth : Nat) := @ih (i + 1) depth (by omega)
      rw [drop_succ_of_drop there] at onward
      have shift (found : Option Nat) : (found.map (· + 1)).map (i + · - 1) = found.map (i + 1 + · - 1) := by
        rw [Option.map_map]
        congr 1
        funext n
        simp only [Function.comp]
        omega
      rw [partner, if_neg (by omega), token_eq (token_of_drop there) rfl, sound_ok_bind, closing?]
      split
      · rw [shift, ← onward (depth + 1)]
        rfl
      · split
        · cases depth with
          | zero => rfl
          | succ depth =>
            rw [if_neg (by omega), if_neg (by omega), shift, Nat.add_sub_cancel, ← onward depth]
            congr 1
            omega
        · rw [shift, ← onward depth]

theorem partner_eq (there : ts.drop i = t :: rest) (opens : t.kind = opening) (enough : ts.length - i < count) :
    partner opening closing ts count i 0 =
      sound (.ok ((closing? opening closing 0 (t :: rest)).map (i + · - 1))) := by
  have inside := lt_of_drop there
  obtain ⟨count, rfl⟩ : ∃ less, count = less + 1 := ⟨count - 1, by omega⟩
  have onward := @partner_inside opening closing ts (i + 1) count 0 (by omega)
  rw [drop_succ_of_drop there] at onward
  rw [partner, if_neg (by omega), token_eq (token_of_drop there) rfl, sound_ok_bind, if_pos opens, closing?, if_pos opens]
  refine onward.trans ?_
  rw [Option.map_map]
  congr 3
  funext n
  simp only [Function.comp]
  omega

theorem blockEnd_eq (there : ts.drop i = t :: rest) (opens : t.kind = .openBrace) :
    blockEnd ts i = sound ((blockLength t rest).map (i + · - 1)) := by
  rw [blockEnd, partner_eq there opens (by omega), sound_ok_bind, blockLength]
  cases closing? .openBrace .closeBrace 0 (t :: rest) with
  | none =>
    rw [Option.map_none]
    dsimp only
    rw [token_eq (token_of_drop there) rfl]
    rfl
  | some n => rfl

end Brackets

section Scan
variable {branch loop : List Token → Guarded Nat} {ts rest : List Token} {t : Token} {i parens count : Nat}

/-- The two callbacks measure the construct at the front of a token list. -/
structure Measures (branch loop : List Token → Guarded Nat) (t : Token) (rest : List Token) : Prop where
  branch : t.kind = .ifWord → branch (t :: rest) = sound ((branchLengths t rest).map BranchLengths.total)
  loop : t.kind = .whileWord → loop (t :: rest) = sound ((loopLengths t rest).map LoopLengths.total)

private theorem stepAt_eq (there : ts.drop i = t :: rest) (measures : Measures branch loop t rest) :
    stepAt branch loop ts i parens t = sound ((stepOver (decide (0 < i)) parens t rest).map
      (Option.map fun passed => (passed.1, (i + passed.2 - 1 : Int)))) := by
  have inside := lt_of_drop there
  have single : ((i : Int) + (1 : Nat) - 1) = i := by omega
  have behind : slice ts i ts.length = sound (.ok (t :: rest)) := by
    rw [slice_behind rfl (by omega), there]
  rw [stepAt, stepOver]
  cases kind : t.kind with
  | ifWord =>
    dsimp only
    rw [behind, sound_ok_bind, measures.branch kind]
    cases branchLengths t rest <;> rfl
  | whileWord =>
    dsimp only
    rw [behind, sound_ok_bind, measures.loop kind]
    cases loopLengths t rest <;> rfl
  | openBrace =>
    dsimp only
    rw [blockEnd_eq there kind]
    cases measured : blockLength t rest with
    | error e => rfl
    | ok n =>
      have positive := (blockLength_le measured).1
      have place : ((i + n - 1 : Nat) : Int) = i + n - 1 := by omega
      simp only [Except.map, sound_ok_bind, Option.map_some, pure_eq_sound, place]
  | closeParen =>
    dsimp only
    split
    · by_cases started : 0 < i <;> simp [started, Except.map, fails, pure_eq_sound]
    · simp [Except.map, pure_eq_sound]
  | comma =>
    dsimp only
    split
    · by_cases started : 0 < i <;> simp [started, Except.map, fails, pure_eq_sound]
    · simp [Except.map, pure_eq_sound]
  | closeBrace => rfl
  | funcWord => rfl
  | elseWord => rfl
  | returnWord => rfl
  | _ => simp [Except.map, pure_eq_sound]

private theorem endsBehind_eq {last : Nat} (there : ts[last]? = some t) :
    endsBehind ts parens last = sound (.ok (isBoundary parens t (ts.drop (last + 1)))) := by
  rw [endsBehind, token_eq there rfl, sound_ok_bind, isBoundary, List.head?_drop]
  split
  next facts =>
    obtain ⟨outside, ends, more⟩ := facts
    obtain ⟨next, follows⟩ : ∃ next, ts[last + 1]? = some next := ⟨ts[last + 1], List.getElem?_eq_getElem (by omega)⟩
    rw [token_eq follows (by omega), follows]
    simp [outside, ends, pure_eq_sound]
  next facts =>
    rw [pure_eq_sound]
    cases follows : ts[last + 1]? with
    | none => simp
    | some next =>
      have more := (List.getElem?_eq_some_iff.mp follows).1
      have goesOn : (parens == 0 && endsExpression t.kind) = false := by
        rw [Bool.and_eq_false_iff, ← Bool.not_eq_true, ← Bool.not_eq_true, beq_iff_eq, ← Decidable.not_and_iff_or_not]
        exact fun both => facts ⟨both.1, both.2, by omega⟩
      simp [goesOn]

private theorem scan_eq (bound : i ≤ ts.length) (enough : ts.length - i < count)
    (measures : ∀ j t rest, ts.drop j = t :: rest → Measures branch loop t rest) :
    scan branch loop ts count i parens = sound ((scanLength (decide (0 < i)) parens (ts.drop i)).map fun n =>
      (ts.take (i + n), ts.drop (i + n))) := by
  induction count generalizing i parens with
  | zero => omega
  | succ count ih =>
    cases there : ts.drop i with
    | nil =>
      have ended := List.drop_eq_nil_iff.mp there
      rw [scan, if_pos ended, scanLength]
      simp [Except.map, pure_eq_sound, there, List.take_of_length_le ended]
    | cons t rest =>
      have inside := lt_of_drop there
      rw [scan, if_neg (by omega), token_eq (token_of_drop there) rfl, sound_ok_bind,
        stepAt_eq there (measures i t rest there), scan_step]
      cases stepped : stepOver (decide (0 < i)) parens t rest with
      | error e => rfl
      | ok step =>
        have within := stepOver_within (fun _ => branchLengths_within) (fun _ => loopLengths_within) stepped
        cases step with
        | none => exact cutAtIndex_eq rfl bound
        | some passed =>
          obtain ⟨parens, n⟩ := passed
          obtain ⟨positive, most⟩ := within _ rfl
          dsimp only at positive most
          obtain ⟨m, rfl⟩ : ∃ less, n = less + 1 := ⟨n - 1, by omega⟩
          have lengths := congrArg List.length there
          rw [List.length_drop, List.length_cons] at lengths
          have last : ts[i + m]? = some ((t :: rest)[m]?.getD t) := by
            rw [← List.getElem?_drop, there, List.getElem?_eq_getElem most, Option.getD_some]
          have behind : ts.drop (i + m + 1) = rest.drop m := by
            rw [Nat.add_assoc, ← List.drop_drop, there, List.drop_succ_cons]
          have place : ((i : Int) + (m + 1 : Nat) - 1) = (i + m : Nat) := by omega
          have next : (((i + m : Nat) : Int) + 1).toNat = i + m + 1 := by omega
          change (do
            if ← endsBehind ts parens (i + (m + 1 : Nat) - 1) then cutAtIndex ts (i + (m + 1 : Nat) - 1 + 1)
            else scan branch loop ts count (i + (m + 1 : Nat) - 1 + 1 : Int).toNat parens) =
              sound ((onward parens ((t :: rest)[m]?.getD t) (m + 1) (rest.drop m)).map _)
          rw [place, endsBehind_eq last, behind, sound_ok_bind, next, onward]
          split
          · exact cutAtIndex_eq (by omega) (by omega)
          · rw [ih (by omega) (by omega), behind, decide_eq_true (Nat.succ_pos _)]
            cases scanLength true parens (rest.drop m) with
            | error e => rfl
            | ok more => simp only [Except.map, Nat.add_assoc]

end Scan

/-- The statement at the front and the tokens behind it, as the grammar has them. -/
def cutSegment (ts : List Token) : Except ParseError (List Token × List Token) :=
  (segmentLength ts).map fun n => (ts.take n, ts.drop n)

def BranchParts.ofLengths (body : List Token) (lengths : BranchLengths) : BranchParts where
  condition := body.take lengths.condition
  action := (body.drop lengths.condition).take lengths.action
  otherwise := lengths.otherwise.map fun n => (body.drop (lengths.condition + lengths.action + 1)).take n

def LoopParts.ofLengths (body : List Token) (lengths : LoopLengths) : LoopParts where
  condition := body.take lengths.condition
  action := (body.drop lengths.condition).take lengths.action

section Lengths
variable {body : List Token}

theorem branchParts_length {lengths : BranchLengths} (within : BranchWithin body.length lengths) :
    (BranchParts.ofLengths body lengths).length = lengths.total := by
  have both := within.both
  simp only [BranchParts.length, BranchParts.ofLengths, BranchLengths.total, List.length_take, List.length_drop]
  cases given : lengths.otherwise with
  | none =>
    simp only [Option.map_none]
    omega
  | some n =>
    have last := (within.otherwise n given).2
    simp only [Option.map_some, List.length_take, List.length_drop]
    omega

theorem loopParts_length {lengths : LoopLengths} (within : LoopWithin body.length lengths) :
    (LoopParts.ofLengths body lengths).length = lengths.total := by
  have both := within.both
  simp only [LoopParts.length, LoopParts.ofLengths, LoopLengths.total, List.length_take, List.length_drop]
  omega

end Lengths

/-- With so much fuel, the three functions that look for the end of a statement do what the grammar says. -/
structure Agrees (fuel : Nat) : Prop where
  statement : ∀ active ts, weight (.statement, ts.length) < fuel → Below active (weight (.statement, ts.length)) →
    nextSegment fuel active ts = sound (cutSegment ts)
  branch : ∀ active t rest, weight (.branch, (t :: rest).length) < fuel →
    Below active (weight (.branch, (t :: rest).length)) →
    splitBranch fuel active (t :: rest) = sound ((branchLengths t rest).map (.ofLengths rest))
  loop : ∀ active t rest, weight (.loop, (t :: rest).length) < fuel →
    Below active (weight (.loop, (t :: rest).length)) →
    splitLoop fuel active (t :: rest) = sound ((loopLengths t rest).map (.ofLengths rest))

section Agreement
variable {fuel : Nat} {active : OpenCalls} {t : Token} {ts rest : List Token}

theorem Agrees.measures (agrees : Agrees fuel) (enough : weight (.branch, (t :: rest).length) < fuel)
    (below : Below active (weight (.branch, (t :: rest).length))) :
    Measures (fun us => BranchParts.length <$> splitBranch fuel active us)
      (fun us => LoopParts.length <$> splitLoop fuel active us) t rest where
  branch _ := by
    rw [agrees.branch active t rest enough below, sound_map]
    cases measured : branchLengths t rest with
    | error e => rfl
    | ok lengths => simp only [Except.map, branchParts_length (branchLengths_within measured)]
  loop _ := by
    rw [agrees.loop active t rest enough below, sound_map]
    cases measured : loopLengths t rest with
    | error e => rfl
    | ok lengths => simp only [Except.map, loopParts_length (loopLengths_within measured)]

private theorem returnsNothing_eq (t : Token) (rest : List Token) : returnsNothing (t :: rest) =
    sound (.ok (rest.head?.all fun next => next.kind = .elseWord ∨ next.kind = .closeBrace)) := by
  rw [returnsNothing]
  cases rest with
  | nil => rfl
  | cons next rest => rfl

private theorem nextSegment_eq (agrees : Agrees fuel) (enough : weight (.statement, ts.length) < fuel + 1)
    (below : Below active (weight (.statement, ts.length))) :
    nextSegment (fuel + 1) active ts = sound (cutSegment ts) := by
  rw [nextSegment, enter_eq below, sound_ok_bind, cutSegment]
  cases ts with
  | nil =>
    rw [segmentLength]
    rfl
  | cons t rest =>
    -- Whatever construct begins at one of the tokens, it can be measured.
    have measures : ∀ j u us, (t :: rest).drop j = u :: us → Measures
        (fun us => BranchParts.length <$> splitBranch fuel ((.statement, (t :: rest).length) :: active) us)
        (fun us => LoopParts.length <$> splitLoop fuel ((.statement, (t :: rest).length) :: active) us) u us := by
      intro j u us there
      have lengths := congrArg List.length there
      rw [List.length_drop] at lengths
      have lighter : weight (.branch, (u :: us).length) < weight (.statement, (t :: rest).length) := by
        simp only [weight, Stage.rank]
        omega
      exact agrees.measures (by omega) (below.deeper lighter)
    rw [if_neg (by simp), token_front, sound_ok_bind]
    cases kind : t.kind with
    | ifWord =>
      dsimp only
      rw [(measures 0 t rest rfl).branch kind, ← segment_branch_word kind]
      exact cutAtIndex_measured fun n measured => (segmentLength_le measured).2
    | whileWord =>
      dsimp only
      rw [(measures 0 t rest rfl).loop kind, ← segment_loop_word kind]
      exact cutAtIndex_measured fun n measured => (segmentLength_le measured).2
    | returnWord =>
      dsimp only
      rw [returnsNothing_eq, sound_ok_bind, segmentLength]
      simp only [kind]
      split
      · exact cutAtIndex_eq (n := 1) rfl (by simp)
      · rw [scan_eq (by simp) (by omega) measures, List.drop_one, List.tail_cons, decide_eq_true Nat.one_pos]
        cases scanLength true 0 rest <;> rfl
    | _ =>
      dsimp only
      rw [scan_eq (Nat.zero_le _) (by omega) measures, segment_scan (by simp [kind]) (by simp [kind]) (by simp [kind])]
      simp

private theorem splitBranch_eq (agrees : Agrees fuel) (enough : weight (.branch, (t :: rest).length) < fuel + 1)
    (below : Below active (weight (.branch, (t :: rest).length))) :
    splitBranch (fuel + 1) active (t :: rest) = sound ((branchLengths t rest).map (.ofLengths rest)) := by
  -- The statements inside are looked for among fewer tokens.
  have inner : ∀ us : List Token, us.length ≤ rest.length →
      nextSegment fuel ((.branch, (t :: rest).length) :: active) us = sound (cutSegment us) := by
    intro us shorter
    have lighter : weight (.statement, us.length) < weight (.branch, (t :: rest).length) := by
      simp only [weight, Stage.rank, List.length_cons]
      omega
    exact agrees.statement _ us (by omega) (below.deeper lighter)
  rw [splitBranch, enter_eq below, sound_ok_bind, branchLengths]
  cases rest with
  | nil => rfl
  | cons next body =>
    rw [if_neg (by simp), if_neg (by simp), slice_tail, sound_ok_bind, inner _ (Nat.le_refl _), cutSegment]
    cases first : segmentLength (next :: body) with
    | error e => rfl
    | ok condition =>
      simp only [Except.map, sound_ok_bind, ok_bind]
      cases there : (next :: body).drop condition with
      | nil => rfl
      | cons u us =>
        have fewer : (u :: us).length ≤ (next :: body).length := by
          rw [← there, List.length_drop]
          exact Nat.sub_le _ _
        rw [if_neg (by simp), if_neg (by simp), inner _ fewer, cutSegment]
        cases second : segmentLength (u :: us) with
        | error e => rfl
        | ok action =>
          simp only [Except.map, sound_ok_bind, ok_bind]
          have next? : (next :: body)[condition + action]? = ((u :: us).drop action).head? := by
            rw [← there, List.drop_drop, List.head?_drop]
          have more : (next :: body).drop (condition + action + 1) = ((u :: us).drop action).tail := by
            rw [← there, List.drop_drop, List.tail_drop]
          rw [next?, more]
          cases after : (u :: us).drop action with
          | nil =>
            rw [← there]
            rfl
          | cons v vs =>
            rw [after, List.tail_cons] at more
            rw [if_neg (by simp), token_front, sound_ok_bind, List.head?_cons, List.tail_cons]
            dsimp only
            split
            · cases vs with
              | nil => rfl
              | cons w ws =>
                have fewer : (w :: ws).length ≤ (next :: body).length := by
                  rw [← more, List.length_drop]
                  exact Nat.sub_le _ _
                rw [if_neg (by simp), if_neg (by simp), slice_tail, sound_ok_bind, inner _ fewer, cutSegment]
                cases third : segmentLength (w :: ws) with
                | error e => rfl
                | ok otherwise =>
                  rw [← there, ← more]
                  rfl
            · rw [← there]
              rfl

private theorem splitLoop_eq (agrees : Agrees fuel) (enough : weight (.loop, (t :: rest).length) < fuel + 1)
    (below : Below active (weight (.loop, (t :: rest).length))) :
    splitLoop (fuel + 1) active (t :: rest) = sound ((loopLengths t rest).map (.ofLengths rest)) := by
  have inner : ∀ us : List Token, us.length ≤ rest.length →
      nextSegment fuel ((.loop, (t :: rest).length) :: active) us = sound (cutSegment us) := by
    intro us shorter
    have lighter : weight (.statement, us.length) < weight (.loop, (t :: rest).length) := by
      simp only [weight, Stage.rank, List.length_cons]
      omega
    exact agrees.statement _ us (by omega) (below.deeper lighter)
  rw [splitLoop, enter_eq below, sound_ok_bind, loopLengths]
  cases rest with
  | nil => rfl
  | cons next body =>
    rw [if_neg (by simp), if_neg (by simp), slice_tail, sound_ok_bind, inner _ (Nat.le_refl _), cutSegment]
    cases first : segmentLength (next :: body) with
    | error e => rfl
    | ok condition =>
      simp only [Except.map, sound_ok_bind, ok_bind]
      cases there : (next :: body).drop condition with
      | nil => rfl
      | cons u us =>
        have fewer : (u :: us).length ≤ (next :: body).length := by
          rw [← there, List.length_drop]
          exact Nat.sub_le _ _
        rw [if_neg (by simp), if_neg (by simp), inner _ fewer, cutSegment]
        cases second : segmentLength (u :: us) with
        | error e => rfl
        | ok action =>
          rw [← there]
          rfl

theorem agrees (fuel : Nat) : Agrees fuel := by
  induction fuel with
  | zero =>
    exact ⟨fun _ _ enough => absurd enough (Nat.not_lt_zero _), fun _ _ _ enough => absurd enough (Nat.not_lt_zero _),
      fun _ _ _ enough => absurd enough (Nat.not_lt_zero _)⟩
  | succ fuel ih => exact ⟨fun _ _ => nextSegment_eq ih, fun _ _ _ => splitBranch_eq ih, fun _ _ _ => splitLoop_eq ih⟩

end Agreement

end Scriptlet.Proofs.GuardedReader
