import Mathlib.Data.List.Forall2
import Scriptlet.Proofs.GrammarReading
import Scriptlet.Proofs.GuardedSegments

/-! The watchful reader puts together the trees of the grammar. Each of its checks does what the rule of the grammar does
in its place, given that whatever it calls does so among fewer tokens. -/

namespace Scriptlet.Proofs.GuardedReader
open Grammar GrammarSegments GrammarCuts GrammarReading SegmentBounds

/-- The token in front of an index. -/
def before? (ts : List Token) (i : Nat) : Option Token := if i = 0 then none else ts[i - 1]?

section Search
variable {construct : List Token → Guarded Nat} {wanted : Nat → Token → Guarded Bool}
  {prefers : Option Token → Token → Bool} {ts rest : List Token} {t : Token} {i n count : Nat} {parens braces : Int}

private theorem before_isSome (inside : i < ts.length) : (before? ts i).isSome = decide (0 < i) := by
  cases i with
  | zero => rfl
  | succ i =>
    have there : ts[i]? = some ts[i] := List.getElem?_eq_getElem (by omega)
    simp [before?, there]

private theorem constructLength_le (found : constructLength? t rest = some n) : 1 ≤ n ∧ n ≤ rest.length + 1 := by
  rw [constructLength?] at found
  split at found
  · obtain ⟨parts, measured, rfl⟩ := Option.map_eq_some_iff.mp found
    exact (branchLengths_within (ok_of_toOption measured)).total
  · obtain ⟨parts, measured, rfl⟩ := Option.map_eq_some_iff.mp found
    exact (loopLengths_within (ok_of_toOption measured)).total
  · cases found

/-- The tests that a search makes, at every index and as the grammar has them. -/
structure Tests (construct : List Token → Guarded Nat) (wanted : Nat → Token → Guarded Bool)
    (prefers : Option Token → Token → Bool) (ts : List Token) : Prop where
  wanted : ∀ i t, ts[i]? = some t → wanted i t = sound (.ok (prefers (before? ts i) t))
  construct : ∀ i t rest, ts.drop i = t :: rest → 0 < i → t.kind = .ifWord ∨ t.kind = .whileWord →
    attempt (construct (t :: rest)) = sound (.ok (constructLength? t rest))

private theorem before_succ (there : ts.drop i = t :: rest) : before? ts (i + 1) = some t := by
  rw [before?, if_neg (Nat.succ_ne_zero i), Nat.add_sub_cancel, token_of_drop there]

private theorem passLength_inside (inside : i < ts.length) (positive : 0 < i) :
    passLength? true (before? ts i) t rest = constructLength? t rest := by
  simp [passLength?, before_isSome inside, positive]

private theorem passLength_plain (inside : i < ts.length)
    (plain : ¬(0 < i ∧ (t.kind = .ifWord ∨ t.kind = .whileWord))) :
    passLength? true (before? ts i) t rest = none := by
  rw [passLength?, before_isSome inside, Bool.true_and]
  split
  next positive =>
    have other := fun kind => plain ⟨of_decide_eq_true positive, kind⟩
    rw [constructLength?]
    split
    · exact absurd (Or.inl ‹_›) other
    · exact absurd (Or.inr ‹_›) other
    · rfl
  · rfl

private theorem map_push (found : Option Split) (passed : List Token) (i : Nat) :
    (found.map (·.push passed)).map (i + ·.before.length) = found.map (i + passed.length + ·.before.length) := by
  rw [Option.map_map]
  congr 1
  funext split
  simp only [Function.comp, Split.push, List.length_append, Nat.add_assoc]

private theorem search_eq (tests : Tests construct wanted prefers ts) (bound : i ≤ ts.length)
    (enough : ts.length - i < count) :
    search construct wanted ts count i parens braces =
      sound (.ok ((splitOutside? prefers (before? ts i) parens braces (ts.drop i)).map (i + ·.before.length))) := by
  induction count generalizing i parens braces with
  | zero => omega
  | succ count ih =>
    cases there : ts.drop i with
    | nil =>
      rw [search, if_pos (List.drop_eq_nil_iff.mp there), splitOutside?]
      rfl
    | cons t rest =>
      have inside := lt_of_drop there
      have onward (parens braces : Int) : search construct wanted ts count (i + 1) parens braces =
          sound (.ok (((splitOutside? prefers (some t) parens braces rest).map (·.push [t])).map
            (i + ·.before.length))) := by
        rw [ih (by omega) (by omega), drop_succ_of_drop there, before_succ there, map_push]
        rfl
      have past {n : Nat} (found : constructLength? t rest = some n) :
          search construct wanted ts count (i + n) parens braces =
            sound (.ok (((splitOutside? prefers (t :: rest)[n - 1]? parens braces (rest.drop (n - 1))).map
              (·.push (t :: rest.take (n - 1)))).map (i + ·.before.length))) := by
        obtain ⟨positive, most⟩ := constructLength_le found
        obtain ⟨m, rfl⟩ : ∃ less, n = less + 1 := ⟨n - 1, by omega⟩
        have lengths := congrArg List.length there
        rw [List.length_drop, List.length_cons] at lengths
        have passed : (t :: rest.take m).length = m + 1 := by
          rw [List.length_cons, List.length_take]
          omega
        have previous : before? ts (i + (m + 1)) = (t :: rest)[m]? := by
          rw [before?, if_neg (by omega), ← there, List.getElem?_drop]
          rfl
        have behind : ts.drop (i + (m + 1)) = rest.drop m := by rw [← List.drop_drop, there, List.drop_succ_cons]
        rw [ih (by omega) (by omega), previous, behind, Nat.add_sub_cancel, map_push, passed]
      rw [search, if_neg (by omega), token_eq (token_of_drop there) rfl, sound_ok_bind, splitOutside?]
      by_cases outside : parens ≤ 0 ∧ braces ≤ 0
      · simp only [outside, and_self, if_true, decide_true, Bool.and_self, Bool.true_and]
        rw [tests.wanted i t (token_of_drop there), sound_ok_bind]
        split
        · rfl
        · split
          next facts =>
            rw [slice_behind rfl bound, sound_ok_bind, there, tests.construct i t rest there facts.1 facts.2,
              sound_ok_bind, passLength_inside inside facts.1]
            cases found : constructLength? t rest with
            | some n => exact past found
            | none => exact onward _ _
          next plain =>
            rw [passLength_plain inside plain]
            exact onward _ _
      · have within : (decide (parens ≤ 0) && decide (braces ≤ 0)) = false := by
          rw [← Bool.decide_and, decide_eq_false outside]
        simp only [if_neg outside, within, Bool.false_and, Bool.false_eq_true, if_false, passLength?]
        exact onward _ _

end Search

section TopLevel
variable {fuel : Nat} {active : OpenCalls} {wanted : Nat → Token → Guarded Bool} {prefers : Option Token → Token → Bool}
  {ts : List Token}

private theorem constructAt_eq {t : Token} {rest : List Token} (enough : weight (.branch, (t :: rest).length) < fuel)
    (below : Below active (weight (.branch, (t :: rest).length))) (kind : t.kind = .ifWord ∨ t.kind = .whileWord) :
    attempt (constructAt fuel active (t :: rest)) = sound (.ok (constructLength? t rest)) := by
  have measures := (agrees fuel).measures enough below
  rw [constructAt, token_front, sound_ok_bind, constructLength?]
  rcases kind with kind | kind
  · rw [if_pos kind, measures.branch kind, attempt_sound, kind]
    cases branchLengths t rest <;> rfl
  · rw [if_neg (by simp [kind]), measures.loop kind, attempt_sound, kind]
    cases loopLengths t rest <;> rfl

theorem topLevel_eq (enough : weight (.search, ts.length) ≤ fuel) (below : Below active (weight (.search, ts.length)))
    (wants : ∀ i t, ts[i]? = some t → wanted i t = sound (.ok (prefers (before? ts i) t))) :
    topLevel fuel active wanted ts =
      sound (.ok ((splitOutside? prefers none 0 0 ts).map (·.before.length))) := by
  rw [topLevel, enter_eq below, sound_ok_bind]
  have tests : Tests (constructAt fuel ((.search, ts.length) :: active)) wanted prefers ts := by
    refine ⟨wants, fun i t rest there _ kind => ?_⟩
    have lengths := congrArg List.length there
    rw [List.length_drop] at lengths
    have lighter : weight (.branch, (t :: rest).length) < weight (.search, ts.length) := by
      simp only [weight, Stage.rank]
      omega
    exact constructAt_eq (by omega) (below.deeper lighter) kind
  rw [search_eq tests (Nat.zero_le _) (by omega), List.drop_zero]
  simp only [Nat.zero_add]
  rfl

end TopLevel

/-- What a rule comes to when the parts of its shape are read. -/
def answer : Option Shape → Except ParseError (Option Node)
  | none => .ok none
  | some found => (found.build fun part _ => parse part).map some

/-- The calls do what the grammar says, as far as the check of these tokens goes: it splits the tokens themselves, and
reads fewer. -/
structure Faithful (calls : Callees) (ts : List Token) : Prop where
  segment : ∀ us : List Token, us.length < ts.length → calls.segment us = sound (cutSegment us)
  branch : ∀ t rest, ts = t :: rest → calls.branch ts = sound ((branchLengths t rest).map (.ofLengths rest))
  loop : ∀ t rest, ts = t :: rest → calls.loop ts = sound ((loopLengths t rest).map (.ofLengths rest))
  find : ∀ (wanted : Nat → Token → Guarded Bool) (prefers : Option Token → Token → Bool),
    (∀ i t, ts[i]? = some t → wanted i t = sound (.ok (prefers (before? ts i) t))) →
    calls.find wanted ts = sound (.ok ((splitOutside? prefers none 0 0 ts).map (·.before.length)))
  tree : ∀ us : List Token, us.length < ts.length → calls.tree us = sound (parse us)

theorem Faithful.within {calls : Callees} {t : Token} {rest us : List Token} (faithful : Faithful calls (t :: rest))
    (among : us.length ≤ rest.length) : calls.tree us = sound (parse us) :=
  faithful.tree us (Nat.lt_succ_of_le among)

/-- A block is its first statement and the block of the others. -/
theorem parseStatements_cons (t : Token) (rest : List Token) : parseStatements (t :: rest) =
    cutSegment (t :: rest) >>= fun cut => parse cut.1 >>= fun node => (parseStatements cut.2).map (node :: ·) := by
  rw [parseStatements, statements, cutSegment]
  cases measured : segmentLength (t :: rest) with
  | error e => rfl
  | ok n =>
    obtain ⟨m, rfl⟩ : ∃ less, n = less + 1 := ⟨n - 1, by have bounds := segmentLength_le measured; omega⟩
    exact build_push _ _

theorem cutSegment_ok {ts : List Token} {cut : List Token × List Token} (found : cutSegment ts = .ok cut) :
    cut.1 ≠ [] ∧ cut.1 ++ cut.2 = ts := by
  obtain ⟨n, measured, rfl⟩ := map_eq_ok found
  obtain ⟨positive, most⟩ := segmentLength_le measured
  refine ⟨?_, List.take_append_drop n ts⟩
  rw [← List.length_pos_iff, List.length_take]
  omega

theorem blockNodes_eq {calls : Callees} {ts : List Token} {count : Nat}
    (segment : ∀ us : List Token, us.length ≤ ts.length → calls.segment us = sound (cutSegment us))
    (tree : ∀ us : List Token, us.length ≤ ts.length → calls.tree us = sound (parse us)) (enough : ts.length < count) :
    blockNodes calls count ts = sound (parseStatements ts) := by
  induction count generalizing ts with
  | zero => omega
  | succ count ih =>
    rw [blockNodes]
    cases ts with
    | nil =>
      rw [parseStatements, statements]
      rfl
    | cons t rest =>
      rw [if_neg (by simp), segment _ (Nat.le_refl _), parseStatements_cons]
      refine sound_bind fun cut found => ?_
      obtain ⟨filled, whole⟩ := cutSegment_ok found
      have lengths := congrArg List.length whole
      rw [List.length_append] at lengths
      have positive := List.length_pos_iff.mpr filled
      dsimp only
      rw [tree _ (by omega)]
      refine sound_bind fun node _ => ?_
      rw [ih (fun us shorter => segment us (by omega)) (fun us shorter => tree us (by omega)) (by omega)]
      cases parseStatements cut.2 <;> rfl

section Checks
variable {calls : Callees} {t : Token} {rest : List Token}

private theorem partner_front {opening closing : TokenKind} (opens : t.kind = opening) :
    partner opening closing (t :: rest) ((t :: rest).length + 1) 0 0 =
      sound (.ok ((closing? opening closing 0 (t :: rest)).map (· - 1))) := by
  have found := @partner_eq opening closing (t :: rest) rest t 0 ((t :: rest).length + 1) rfl opens (by omega)
  simpa only [Nat.zero_add] using found

private theorem blockEnd_front (opens : t.kind = .openBrace) :
    blockEnd (t :: rest) 0 = sound ((blockLength t rest).map (· - 1)) := by
  have found := @blockEnd_eq (t :: rest) rest t 0 rfl opens
  simpa only [Nat.zero_add] using found

/-- The tokens between the first and the last. -/
theorem slice_between {inner : List Token} {last : Token} {j : Int} (index : j = inner.length + 1) :
    slice (t :: (inner ++ [last])) 1 j = sound (.ok inner) := by
  have cut := @slice_eq (t :: (inner ++ [last])) 1 j 1 (inner.length + 1) rfl (by omega) (by omega) (by simp)
  simpa using cut

private theorem checkGroup_eq (faithful : Faithful calls (t :: rest)) :
    checkGroup calls (t :: rest) = sound (groupRule t rest >>= answer) := by
  rw [checkGroup, token_front, sound_ok_bind, groupRule]
  split
  next opens =>
    rw [partner_front opens, sound_ok_bind]
    cases closed : closing? .openParen .closeParen 0 (t :: rest) with
    | none => rfl
    | some n =>
      obtain ⟨m, rfl⟩ : ∃ less, n = less + 1 := ⟨n - 1, by have bounds := closing_le closed; omega⟩
      simp only [Option.map_some, Nat.add_sub_cancel]
      by_cases whole : m + 1 = (t :: rest).length
      · rw [if_neg (not_not_intro whole), if_neg (not_not_intro whole)]
        rw [whole] at closed
        obtain ⟨inner, last, rfl, _⟩ := enclosed_of_closing (by simp) opens closed
        have size : m = inner.length + 1 := by simpa using whole
        by_cases single : m = 1
        · rw [if_pos single, if_pos (by omega)]
          rfl
        · rw [if_neg single, if_neg (by omega), slice_between (by omega), sound_ok_bind,
            faithful.tree inner (by simp +arith), List.dropLast_concat, sound_map]
          rfl
      · rw [if_pos whole, if_pos whole]
        rfl
  · rfl

private theorem closing_of_blockLength {n : Nat} (measured : blockLength t rest = .ok n) :
    closing? .openBrace .closeBrace 0 (t :: rest) = some n := by
  rw [blockLength] at measured
  split at measured
  next closed =>
    cases measured
    exact closed
  · cases measured

private theorem checkBlock_eq (faithful : Faithful calls (t :: rest)) :
    checkBlock calls (t :: rest) = sound (blockRule t rest >>= answer) := by
  rw [checkBlock, token_front, sound_ok_bind, blockRule]
  split
  next opens =>
    rw [blockEnd_front opens]
    cases measured : blockLength t rest with
    | error e => rfl
    | ok n =>
      obtain ⟨m, rfl⟩ : ∃ less, n = less + 1 := ⟨n - 1, by have bounds := blockLength_le measured; omega⟩
      simp only [Except.map, sound_ok_bind, Nat.add_sub_cancel]
      by_cases whole : m + 1 = (t :: rest).length
      · rw [if_neg (not_not_intro whole), if_neg (not_not_intro whole)]
        have closed := closing_of_blockLength measured
        rw [whole] at closed
        obtain ⟨inner, last, rfl, _⟩ := enclosed_of_closing (by simp) opens closed
        have size : m = inner.length + 1 := by simpa using whole
        have fewer : inner.length < (t :: (inner ++ [last])).length := by simp +arith
        rw [slice_between (by omega), sound_ok_bind, blockNodes_eq (fun us shorter => faithful.segment us (by omega))
          (fun us shorter => faithful.tree us (by omega)) (by omega), List.dropLast_concat]
        change _ = sound ((parseStatements inner >>= fun nodes => .ok (Node.block t.position nodes)).map some)
        cases parseStatements inner <;> rfl
      · rw [if_pos whole, if_pos whole]
        rfl
  · rfl

private theorem checkReturn_eq (faithful : Faithful calls (t :: rest)) :
    checkReturn calls (t :: rest) = sound (returnRule t rest >>= answer) := by
  rw [checkReturn, token_front, sound_ok_bind, returnRule]
  split
  · cases rest with
    | nil => rfl
    | cons next rest =>
      rw [if_neg (by simp), if_neg (by simp), slice_tail, sound_ok_bind, faithful.within (Nat.le_refl _)]
      change _ = sound (((Shape.ret t.position (next :: rest)).build fun part _ => parse part).map some)
      rw [Shape.build]
      cases parse (next :: rest) <;> rfl
  · rfl

private theorem token_behind {n : Nat} (positive : 1 ≤ n) (inside : n < (t :: rest).length) :
    token (t :: rest) n = sound (.ok (rest[n - 1]?.getD t)) := by
  obtain ⟨m, rfl⟩ : ∃ less, n = less + 1 := ⟨n - 1, by omega⟩
  have bound : m < rest.length := by simpa using inside
  have there : (t :: rest)[m + 1]? = some rest[m] := by rw [List.getElem?_cons_succ, List.getElem?_eq_getElem bound]
  rw [token_eq there rfl, Nat.add_sub_cancel, List.getElem?_eq_getElem bound, Option.getD_some]

/-- The last part of an `if` that takes up all tokens goes to their end. -/
theorem otherwise_eq {lengths : BranchLengths} (whole : lengths.total = (t :: rest).length) :
    (BranchParts.ofLengths rest lengths).otherwise =
      lengths.otherwise.map fun _ => (rest.drop lengths.condition).drop (lengths.action + 1) := by
  rw [BranchParts.ofLengths]
  cases given : lengths.otherwise with
  | none => rfl
  | some n =>
    simp only [BranchLengths.total, given, List.length_cons] at whole
    have rests : (rest.drop (lengths.condition + lengths.action + 1)).length ≤ n := by
      rw [List.length_drop]
      omega
    rw [Option.map_some, Option.map_some, List.take_of_length_le rests, List.drop_drop, Nat.add_assoc]

private theorem build_choice (position : Position) (condition action last : List Token) :
    ((Shape.branch position condition action (some last)).build fun part _ => parse part) = (do
      let condition ← parse condition
      let action ← parse action
      return .branch position condition action (← parse last)) := rfl

private theorem checkBranch_eq (faithful : Faithful calls (t :: rest)) :
    checkBranch calls (t :: rest) = sound (branchRule t rest >>= answer) := by
  rw [checkBranch, token_front, sound_ok_bind, branchRule]
  split
  · rw [faithful.branch t rest rfl]
    cases measured : branchLengths t rest with
    | error e => rfl
    | ok lengths =>
      have within := branchLengths_within measured
      simp only [Except.map, sound_ok_bind, branchParts_length within]
      by_cases whole : lengths.total = (t :: rest).length
      · have condition : calls.tree (BranchParts.ofLengths rest lengths).condition =
            sound (parse (rest.take lengths.condition)) := faithful.within (List.length_take_le' ..)
        have action : calls.tree (BranchParts.ofLengths rest lengths).action =
            sound (parse ((rest.drop lengths.condition).take lengths.action)) := by
          refine faithful.within (Nat.le_trans (List.length_take_le' ..) ?_)
          rw [List.length_drop]
          exact Nat.sub_le _ _
        have last : calls.tree ((rest.drop lengths.condition).drop (lengths.action + 1)) = sound (parse _) :=
          faithful.within (by simp)
        rw [if_neg (not_not_intro whole), if_neg (not_not_intro whole), condition, action, otherwise_eq whole]
        change _ = sound (((Shape.branch ..).build fun part _ => parse part).map some)
        cases lengths.otherwise with
        | none =>
          rw [Option.map_none, Shape.build]
          cases parse (rest.take lengths.condition) with
          | error e => rfl
          | ok first => cases parse ((rest.drop lengths.condition).take lengths.action) <;> rfl
        | some n =>
          simp only [Option.map_some, last]
          rw [build_choice]
          cases parse (rest.take lengths.condition) with
          | error e => rfl
          | ok first =>
            cases parse ((rest.drop lengths.condition).take lengths.action) with
            | error e => rfl
            | ok second => cases parse ((rest.drop lengths.condition).drop (lengths.action + 1)) <;> rfl
      · have bounds := within.total
        rw [if_pos whole, if_pos whole, token_behind bounds.1 (by rw [List.length_cons] at whole ⊢; omega)]
        rfl
  · rfl

private theorem checkLoop_eq (faithful : Faithful calls (t :: rest)) :
    checkLoop calls (t :: rest) = sound (loopRule t rest >>= answer) := by
  rw [checkLoop, token_front, sound_ok_bind, loopRule]
  split
  · rw [faithful.loop t rest rfl]
    cases measured : loopLengths t rest with
    | error e => rfl
    | ok lengths =>
      have within := loopLengths_within measured
      simp only [Except.map, sound_ok_bind, loopParts_length within]
      by_cases whole : lengths.total = (t :: rest).length
      · have all : (LoopParts.ofLengths rest lengths).action = rest.drop lengths.condition := by
          apply List.take_of_length_le
          rw [List.length_drop]
          simp only [LoopLengths.total, List.length_cons] at whole
          omega
        have condition : calls.tree (LoopParts.ofLengths rest lengths).condition =
            sound (parse (rest.take lengths.condition)) := faithful.within (List.length_take_le' ..)
        have action : calls.tree (rest.drop lengths.condition) = sound (parse _) := faithful.within (by simp)
        rw [if_neg (not_not_intro whole), if_neg (not_not_intro whole), condition, all, action]
        change _ = sound (((Shape.loop ..).build fun part _ => parse part).map some)
        rw [Shape.build]
        cases parse (rest.take lengths.condition) with
        | error e => rfl
        | ok first => cases parse (rest.drop lengths.condition) <;> rfl
      · have bounds := within.total
        rw [if_pos whole, if_pos whole, token_behind bounds.1 (by rw [List.length_cons] at whole ⊢; omega)]
        rfl
  · rfl

private theorem operand_eq (faithful : Faithful calls (t :: rest)) (function : String) :
    (do return some (operatorCall t function [← calls.tree (← slice (t :: rest) 1 (t :: rest).length)])) =
      sound (answer (some (.unary t function rest))) := by
  rw [slice_tail, sound_ok_bind, faithful.within (Nat.le_refl _), answer, Shape.build]
  cases parse rest <;> rfl

private theorem checkNegation_eq (faithful : Faithful calls (t :: rest)) :
    checkNegation calls (t :: rest) = sound (negationRule t rest >>= answer) := by
  rw [checkNegation, token_front, sound_ok_bind, negationRule]
  split
  · cases rest with
    | nil => rfl
    | cons next rest =>
      rw [if_neg (by simp), if_neg (by simp)]
      exact operand_eq faithful "__negate"
  · rfl

private theorem checkLeaf_eq (t : Token) (rest : List Token) :
    checkLeaf (t :: rest) = sound (leafRule t rest >>= answer) := by
  rw [checkLeaf]
  cases rest with
  | nil =>
    rw [if_pos (by simp), token_front, sound_ok_bind]
    cases taken : leafRule t [] with
    | error e => rfl
    | ok found =>
      cases found with
      | none => rfl
      | some shape =>
        obtain ⟨node, rfl⟩ := leafRule_leaf taken
        rfl
  | cons next rest => rfl

section Splits
variable {ts : List Token} {split : Split} (whole : ts = split.before ++ split.operator :: split.after)
include whole

private theorem token_operator : token ts split.before.length = sound (.ok split.operator) := by
  have there : ts[split.before.length]? = some split.operator := by
    rw [whole, List.getElem?_append_right (Nat.le_refl _), Nat.sub_self, List.getElem?_cons_zero]
  exact token_eq there rfl

theorem slice_left : slice ts 0 split.before.length = sound (.ok split.before) := by
  rw [slice_before rfl (by simp [whole]), whole, List.take_left]

private theorem slice_right : slice ts (split.before.length + 1) ts.length = sound (.ok split.after) := by
  have cut := @slice_behind ts (split.before.length + 1) (split.before.length + 1) rfl (by simp [whole])
  have rest : ts.drop (split.before.length + 1) = split.after := by
    rw [whole, ← List.drop_drop, List.drop_left, List.drop_one, List.tail_cons]
  rwa [rest] at cut

private theorem token_next {next : Token} {after : List Token} (follows : split.after = next :: after) :
    token ts (split.before.length + 1) = sound (.ok next) := by
  have there : ts[split.before.length + 1]? = some next := by
    rw [whole, follows, List.getElem?_append_right (by omega), Nat.add_sub_cancel_left]
    rfl
  exact token_eq there rfl

private theorem last_iff : split.before.length + 1 = ts.length ↔ split.after.isEmpty = true := by
  rw [whole, List.isEmpty_iff_length_eq_zero, List.length_append, List.length_cons]
  omega

private theorem binaryAt_eq (faithful : Faithful calls ts) : binaryAt calls ts split.before.length =
    sound (binaryShape (operatorFunction split.operator.kind) split >>= answer) := by
  have left : split.before.length < ts.length := by
    rw [whole, List.length_append, List.length_cons]
    omega
  have right : split.after.length < ts.length := by
    rw [whole, List.length_append, List.length_cons]
    omega
  rw [binaryAt, token_operator whole, sound_ok_bind, binaryShape]
  by_cases first : split.before.length = 0
  · rw [if_pos first, if_pos (List.isEmpty_iff_length_eq_zero.mpr first)]
    rfl
  · rw [if_neg first, if_neg fun empty => first (List.isEmpty_iff_length_eq_zero.mp empty)]
    by_cases last : split.before.length + 1 = ts.length
    · rw [if_pos last, if_pos ((last_iff whole).mp last)]
      rfl
    · rw [if_neg last, if_neg fun empty => last ((last_iff whole).mpr empty), slice_left whole, sound_ok_bind,
        faithful.tree _ left]
      simp only [slice_right whole, sound_ok_bind, faithful.tree _ right]
      change _ = sound (((Shape.binary ..).build fun part _ => parse part).map some)
      rw [Shape.build]
      cases parse split.before with
      | error e => rfl
      | ok left => cases parse split.after <;> rfl

end Splits

private theorem find_oneOf (faithful : Faithful calls (t :: rest)) (kinds : List TokenKind) :
    calls.find (oneOf kinds) (t :: rest) = sound (.ok ((splitAt? kinds (t :: rest)).map (·.before.length))) :=
  faithful.find (oneOf kinds) (fun _ t => kinds.contains t.kind) fun _ _ _ => rfl

private theorem checkOperator_eq (kinds : List TokenKind) (faithful : Faithful calls (t :: rest)) :
    checkOperator kinds calls (t :: rest) = sound (operatorRule kinds t rest >>= answer) := by
  rw [checkOperator, find_oneOf faithful, sound_ok_bind, operatorRule]
  cases found : splitAt? kinds (t :: rest) with
  | none => rfl
  | some split => exact binaryAt_eq (splitAt_cut found).1 faithful

private theorem checkAssignment_eq (faithful : Faithful calls (t :: rest)) :
    checkAssignment calls (t :: rest) = sound (assignmentRule t rest >>= answer) := by
  rw [checkAssignment, find_oneOf faithful, sound_ok_bind, assignmentRule]
  cases found : splitAt? assignmentKinds (t :: rest) with
  | none => rfl
  | some split =>
    have whole := (splitAt_cut found).1
    simp only [Option.map_some]
    rw [token_operator whole, sound_ok_bind, token_front, sound_ok_bind]
    by_cases target : split.before.length ≠ 1 ∨ t.kind ≠ .ident
    · rw [if_pos target, if_pos target]
      rfl
    · rw [if_neg target, if_neg target]
      by_cases last : split.before.length + 1 = (t :: rest).length
      · rw [if_pos last, if_pos ((last_iff whole).mp last)]
        rfl
      · have right : split.after.length < (t :: rest).length := by
          rw [whole, List.length_append, List.length_cons]
          omega
        rw [if_neg last, if_neg fun empty => last ((last_iff whole).mpr empty), slice_right whole, sound_ok_bind,
          faithful.tree _ right]
        cases updateFunction? split.operator.kind with
        | none =>
          change _ = sound (((Shape.assign ..).build fun part _ => parse part).map some)
          rw [Shape.build]
          cases parse split.after <;> rfl
        | some function =>
          change _ = sound (((Shape.update ..).build fun part _ => parse part).map some)
          rw [Shape.build]
          cases parse split.after <;> rfl

private theorem wantedSign_eq (ts : List Token) (i : Nat) (u : Token) (there : ts[i]? = some u) :
    wantedSign ts i u = sound (.ok (isSign u.kind && (before? ts i).any (endsOperand ·.kind))) := by
  rw [wantedSign, before?]
  cases i with
  | zero => simp [pure_eq_sound]
  | succ i =>
    have inside := (List.getElem?_eq_some_iff.mp there).1
    have previous : ts[i]? = some ts[i] := List.getElem?_eq_getElem (by omega)
    rw [token_eq previous (by omega), sound_ok_bind, if_neg (Nat.succ_ne_zero i), Nat.add_sub_cancel, previous]
    cases isSign u.kind <;> simp [pure_eq_sound]

private theorem checkAdditive_eq (faithful : Faithful calls (t :: rest)) :
    checkAdditive calls (t :: rest) = sound (additiveRule t rest >>= answer) := by
  rw [checkAdditive, faithful.find _ (fun previous t => isSign t.kind && previous.any (endsOperand ·.kind))
    (wantedSign_eq (t :: rest)), sound_ok_bind, additiveRule]
  cases found : splitOutside? (fun previous t => isSign t.kind && previous.any (endsOperand ·.kind)) none 0 0
    (t :: rest) with
  | none => rfl
  | some split =>
    have whole := (splitOutside_cut found).1
    have binary := binaryAt_eq whole faithful
    have last := last_iff whole
    simp only [Option.map_some]
    cases follows : split.after with
    | nil =>
      rw [follows] at last
      rw [if_neg (by have size := last.mpr rfl; omega)]
      exact binary
    | cons next after =>
      have inside : split.before.length + 1 < (t :: rest).length := by
        rw [whole, follows, List.length_append, List.length_cons, List.length_cons]
        omega
      rw [if_pos inside, token_next whole follows, sound_ok_bind, List.head?_cons]
      cases sign : isSign next.kind with
      | true => simp only [sign, if_true]; rfl
      | false => simp only [sign, Bool.false_eq_true, if_false]; exact binary

private theorem checkNot_eq (faithful : Faithful calls (t :: rest)) :
    checkNot calls (t :: rest) = sound (notRule t rest >>= answer) := by
  rw [checkNot, find_oneOf faithful, sound_ok_bind, notRule]
  cases found : splitAt? [.notWord] (t :: rest) with
  | none => rfl
  | some split =>
    simp only [Option.map_some]
    rw [token_front, sound_ok_bind]
    by_cases first : split.before.length = 0
    · rw [if_neg (not_not_intro first), if_neg (not_not_intro (List.isEmpty_iff_length_eq_zero.mpr first))]
      cases rest with
      | nil => rfl
      | cons next rest =>
        rw [if_neg (by simp), if_neg (by simp)]
        exact operand_eq faithful "__not"
    · rw [if_pos first, if_pos fun empty => first (List.isEmpty_iff_length_eq_zero.mp empty)]
      rfl

/-- From a place in front of some closing parentheses. The tokens that are still to be passed are given in reverse. -/
theorem opener_inside {ts front after : List Token} (depth : Nat) (whole : ts = front.reverse ++ after) :
    opener ts front.length (depth + 1 : Nat) =
      sound (.ok ((closing? .closeParen .openParen (depth + 1) front).map (front.length - ·))) := by
  induction front generalizing depth after with
  | nil => rfl
  | cons u front ih =>
    have onward (depth : Nat) := @ih (u :: after) depth (by simpa using whole)
    have there : ts[front.length]? = some u := by simp [whole]
    have shift (found : Option Nat) : (found.map (· + 1)).map (front.length + 1 - ·) = found.map (front.length - ·) := by
      rw [Option.map_map]
      congr 1
      funext n
      exact Nat.add_sub_add_right ..
    rw [List.length_cons, opener, token_eq there rfl, sound_ok_bind, closing?, bracketStep]
    split
    · rw [if_neg (by omega), shift, ← onward (depth + 1)]
      rfl
    · split
      · cases depth with
        | zero => rfl
        | succ depth =>
          rw [if_neg (by omega), if_neg (by omega), shift, Nat.add_sub_cancel, ← onward depth]
          congr 1
          omega
      · rw [if_neg (by omega), shift, ← onward depth]
        rfl

private theorem opener_eq {ts front : List Token} {last : Token} (ends : ts.reverse = last :: front)
    (closes : last.kind = .closeParen) : opener ts ts.length 0 =
      sound (.ok ((closing? .closeParen .openParen 0 (last :: front)).map (ts.length - ·))) := by
  have whole : ts = front.reverse ++ [last] := by
    rw [← List.reverse_reverse ts, ends, List.reverse_cons]
  have size : ts.length = front.length + 1 := by simp [whole]
  have there : ts[front.length]? = some last := by simp [whole]
  have step : bracketStep .closeParen .openParen last.kind = 1 := by simp [bracketStep, closes]
  have onward := opener_inside 0 whole
  rw [size, opener, token_eq there rfl, sound_ok_bind, step, closing?, if_pos closes, Option.map_map]
  refine onward.trans ?_
  congr 3
  funext n
  exact (Nat.add_sub_add_right ..).symm

section Arguments
variable {inner held : List Token} {i first : Nat} {culprit paren : Token}

private theorem argumentAt_eq (tree : ∀ us : List Token, us.length ≤ inner.length → calls.tree us = sound (parse us))
    (piece : held.reverse = (inner.take i).drop first) (order : first ≤ i) (bound : i ≤ inner.length) :
    argumentAt calls inner first i culprit =
      sound (if held.isEmpty then .error (culprit.fault .emptyArgument) else parse held.reverse) := by
  have size : held.length = i - first := by
    have lengths := congrArg List.length piece
    rw [List.length_reverse, List.length_drop, List.length_take] at lengths
    omega
  rw [argumentAt]
  by_cases empty : first = i
  · rw [if_pos empty, if_pos (List.isEmpty_iff_length_eq_zero.mpr (by omega))]
    rfl
  · rw [if_neg empty, if_neg (by rw [List.isEmpty_iff_length_eq_zero]; omega), slice_eq rfl rfl order bound,
      sound_ok_bind, ← piece]
    exact tree _ (by rw [List.length_reverse]; omega)

private theorem argumentNodes_eq {remaining : List Token} {depth : Int}
    (tree : ∀ us : List Token, us.length ≤ inner.length → calls.tree us = sound (parse us))
    (behind : inner.drop i = remaining) (piece : held.reverse = (inner.take i).drop first) (order : first ≤ i)
    (bound : i ≤ inner.length) : argumentNodes calls paren inner remaining i first depth =
      sound ((cutArguments paren depth held remaining).build fun part _ => parse part) := by
  induction remaining generalizing i first held depth with
  | nil =>
    rw [argumentNodes, argumentAt_eq tree piece order bound, cutArguments]
    cases held with
    | nil => rfl
    | cons u held =>
      rw [if_neg (by simp), if_neg (by simp)]
      change _ = sound ((Pieces.push (u :: held).reverse ⟨[], none⟩).build fun part _ => parse part)
      rw [build_push]
      cases parse (u :: held).reverse <;> rfl
  | cons u remaining ih =>
    have inside := lt_of_drop behind
    have next := drop_succ_of_drop behind
    rw [argumentNodes, cutArguments]
    by_cases comma : u.kind = .comma ∧ depth = 0
    · have others := @ih [] (i + 1) (i + 1) depth next (by simp) (Nat.le_refl _) inside
      rw [if_pos comma, if_pos comma, argumentAt_eq tree piece order bound, others, comma.2]
      cases held with
      | nil => rfl
      | cons v held =>
        rw [if_neg (by simp), if_neg (by simp), build_push]
        refine sound_bind fun node _ => ?_
        cases (cutArguments paren 0 [] remaining).build fun part _ => parse part <;> rfl
    · rw [if_neg comma, if_neg comma]
      refine ih next ?_ (by omega) inside
      have there := token_of_drop behind
      rw [List.getElem?_eq_getElem inside] at there
      rw [List.take_succ_eq_append_getElem inside, List.drop_append_of_le_length (by simp; omega), ← piece,
        List.reverse_cons, Option.some.inj there]

private theorem argumentList_eq (tree : ∀ us : List Token, us.length ≤ inner.length → calls.tree us = sound (parse us))
    (position : Position) (function : Node) : (do
      if inner.length = 0 then return some (Node.call position function [])
      else return some (Node.call position function (← argumentNodes calls paren inner inner 0 0 0))) =
      sound (((arguments paren inner).build fun part _ => parse part).map fun nodes =>
        some (Node.call position function nodes)) := by
  rw [arguments]
  cases inner with
  | nil => rfl
  | cons u inner =>
    have nodes := @argumentNodes_eq calls (u :: inner) [] 0 0 paren (u :: inner) 0 tree rfl (by simp) (Nat.le_refl 0)
      (Nat.zero_le _)
    rw [if_neg (by simp), if_neg (by simp), nodes]
    cases (cutArguments paren 0 [] (u :: inner)).build fun part _ => parse part <;> rfl

private theorem slice_inner {ts callee : List Token} {last : Token}
    (whole : ts = callee ++ paren :: (inner ++ [last])) :
    slice ts (callee.length + 1) (ts.length - 1) = sound (.ok inner) := by
  have size : ts.length = callee.length + (inner.length + 2) := by simp [whole]
  have cut := @slice_eq ts (callee.length + 1) (ts.length - 1) (callee.length + 1)
    (callee.length + (inner.length + 1)) rfl (by omega) (by omega) (by omega)
  have between : (ts.take (callee.length + (inner.length + 1))).drop (callee.length + 1) = inner := by
    rw [whole, List.take_length_add_append, ← List.drop_drop, List.drop_left, List.drop_one, List.take_succ_cons,
      List.tail_cons, List.take_left]
  rwa [between] at cut

end Arguments

private theorem checkCall_eq (faithful : Faithful calls (t :: rest)) :
    checkCall calls (t :: rest) = sound (callRule t rest >>= answer) := by
  cases ends : (t :: rest).reverse with
  | nil => simp at ends
  | cons last front =>
    have size : (t :: rest).length = front.length + 1 := by rw [← List.length_reverse, ends, List.length_cons]
    have there : (t :: rest)[front.length]? = some last := by
      rw [← List.reverse_reverse (t :: rest), ends]
      simp
    rw [checkCall, token_eq there (by omega), sound_ok_bind]
    by_cases closes : last.kind = .closeParen
    · rw [if_pos closes, opener_eq ends closes, sound_ok_bind]
      cases closed : closing? .closeParen .openParen 0 (last :: front) with
      | none =>
        rw [callRule, ends]
        dsimp only
        rw [if_pos closes, closed]
        rfl
      | some n =>
        obtain ⟨callee, paren, inner, tokens, _, rfl, called⟩ := callRule_opened ends closes closed
        have lengths : (t :: rest).length = callee.length + (inner.length + 2) := by simp [tokens]
        have opens := @token_operator _ ⟨callee, paren, inner ++ [last]⟩ tokens
        have left := @slice_left _ ⟨callee, paren, inner ++ [last]⟩ tokens
        rw [called, Option.map_some, lengths, Nat.add_sub_cancel, ← lengths]
        dsimp only at opens left ⊢
        rw [token_front, sound_ok_bind]
        by_cases none : callee.length = 0
        · rw [if_pos none, if_pos (List.isEmpty_iff_length_eq_zero.mpr none)]
          rfl
        · rw [if_neg none, if_neg fun empty => none (List.isEmpty_iff_length_eq_zero.mp empty), left, sound_ok_bind,
            faithful.tree _ (by omega)]
          have given := @argumentList_eq calls inner paren fun us among => faithful.tree us (by omega)
          simp only [opens, slice_inner tokens, sound_ok_bind, given]
          change _ = sound (((Shape.call ..).build fun part _ => parse part).map some)
          rw [Shape.build]
          cases parse callee with
          | error e => rfl
          | ok function => cases (arguments paren inner).build fun part _ => parse part <;> rfl
    · rw [if_neg closes, callRule, ends]
      dsimp only
      rw [if_neg closes]
      rfl

private theorem checkMember_eq (faithful : Faithful calls (t :: rest)) :
    checkMember calls (t :: rest) = sound (memberRule t rest >>= answer) := by
  rw [checkMember, memberRule]
  cases ends : (t :: rest).reverse with
  | nil => simp at ends
  | cons name front =>
    have whole : t :: rest = front.reverse ++ [name] := by rw [← List.reverse_reverse (t :: rest), ends, List.reverse_cons]
    have last : (t :: rest)[front.length]? = some name := by simp [whole]
    have size : (t :: rest).length = front.length + 1 := by rw [← List.length_reverse, ends, List.length_cons]
    rw [token_eq last (by omega), sound_ok_bind]
    cases front with
    | nil =>
      rw [if_neg (by rw [size]; simp)]
      rfl
    | cons dot base =>
      have second : (t :: rest)[base.length]? = some dot := by simp [whole]
      have left : slice (t :: rest) 0 ((t :: rest).length - 2) = sound (.ok base.reverse) := by
        rw [slice_before (n := base.length) (by rw [size, List.length_cons]; omega) (by rw [size, List.length_cons]; omega)]
        simp [whole]
      have size : (t :: rest).length = base.length + 2 := by simpa using size
      dsimp only
      by_cases named : 3 ≤ (t :: rest).length ∧ name.kind = .ident
      · rw [if_pos named, token_eq second (by omega), sound_ok_bind]
        by_cases dotted : dot.kind = .dot
        · have filled : ¬base.isEmpty = true := by
            rw [List.isEmpty_iff_length_eq_zero]
            omega
          rw [if_pos dotted, if_pos ⟨named.2, dotted, filled⟩, left, sound_ok_bind,
            faithful.tree _ (by rw [List.length_reverse]; omega)]
          change _ = sound (((Shape.member ..).build fun part _ => parse part).map some)
          rw [Shape.build]
          cases parse base.reverse <;> rfl
        · rw [if_neg dotted, if_neg fun facts => dotted facts.2.1]
          rfl
      · have fails : ¬(name.kind = .ident ∧ dot.kind = .dot ∧ ¬base.isEmpty = true) := by
          rintro ⟨ident, _, filled⟩
          rw [List.isEmpty_iff_length_eq_zero] at filled
          exact named ⟨by omega, ident⟩
        rw [if_neg named, if_neg fails]
        rfl

private theorem firstNode_eq {all : List Check} {candidates : List Rule}
    (same : List.Forall₂ (fun check rule => check (t :: rest) = sound (rule t rest >>= answer)) all candidates) :
    firstNode (t :: rest) all =
      sound (firstShape t rest candidates >>= fun found => found.build fun part _ => parse part) := by
  induction same with
  | nil => rfl
  | @cons _ rule _ _ first _ ih =>
    rw [firstNode, firstShape, first]
    cases rule t rest with
    | error e => rfl
    | ok found =>
      cases found with
      | none => exact ih
      | some found =>
        change _ = sound (found.build fun part _ => parse part)
        rw [ok_bind, answer]
        cases found.build fun part _ => parse part <;> rfl

private theorem checks_eq (faithful : Faithful calls (t :: rest)) :
    firstNode (t :: rest) (checks calls) = sound (parse (t :: rest)) := by
  have all : List.Forall₂ (fun check rule => check (t :: rest) = sound (rule t rest >>= answer)) (checks calls) rules :=
    .cons (checkGroup_eq faithful) <| .cons (checkBlock_eq faithful) <| .cons (checkReturn_eq faithful) <|
    .cons (checkBranch_eq faithful) <| .cons (checkLoop_eq faithful) <| .cons (checkNegation_eq faithful) <|
    .cons (checkLeaf_eq t rest) <| .cons (checkAssignment_eq faithful) <| .cons (checkOperator_eq _ faithful) <|
    .cons (checkAdditive_eq faithful) <| .cons (checkOperator_eq _ faithful) <| .cons (checkOperator_eq _ faithful) <|
    .cons (checkOperator_eq _ faithful) <| .cons (checkNot_eq faithful) <| .cons (checkCall_eq faithful) <|
    .cons (checkMember_eq faithful) .nil
  rw [firstNode_eq all]
  cases shaped : shape (t :: rest) with
  | error e =>
    rw [parse_of_no_shape shaped, ← shape, shaped]
    rfl
  | ok found =>
    rw [parse_of_shape shaped, ← shape, shaped]
    rfl

end Checks

private theorem weight_lt_tree {stage : Stage} {m n : Nat} (fewer : m ≤ n) (again : stage = .tree → m < n) :
    weight (stage, m) < weight (.tree, n) := by
  rw [weight, weight]
  cases stage with
  | tree =>
    have shorter := again rfl
    simp only [Stage.rank]
    omega
  | _ =>
    simp only [Stage.rank]
    omega

/-- With enough fuel, the tree of the tokens is the one that the grammar gives them. -/
theorem tree_eq {fuel : Nat} {active : OpenCalls} {ts : List Token} (enough : weight (.tree, ts.length) < fuel)
    (below : Below active (weight (.tree, ts.length))) : tree fuel active ts = sound (parse ts) := by
  induction fuel generalizing active ts with
  | zero => omega
  | succ fuel ih =>
    rw [tree, enter_eq below, sound_ok_bind]
    cases ts with
    | nil =>
      rw [parse_of_no_shape (by rfl)]
      rfl
    | cons t rest =>
      rw [if_neg (by simp)]
      have deeper {stage : Stage} {m : Nat} (fewer : m ≤ (t :: rest).length) (again : stage = .tree → m < (t :: rest).length) :
          weight (stage, m) < fuel ∧ Below ((.tree, (t :: rest).length) :: active) (weight (stage, m)) := by
        have lighter := weight_lt_tree fewer again
        exact ⟨by omega, below.deeper lighter⟩
      apply checks_eq
      constructor
      case segment =>
        intro us shorter
        obtain ⟨enough, below⟩ := @deeper .statement us.length (Nat.le_of_lt shorter) (by simp)
        exact (agrees fuel).statement _ us enough below
      case branch =>
        intro u us same
        cases same
        obtain ⟨enough, below⟩ := @deeper .branch (t :: rest).length (Nat.le_refl _) (by simp)
        exact (agrees fuel).branch _ t rest enough below
      case loop =>
        intro u us same
        cases same
        obtain ⟨enough, below⟩ := @deeper .loop (t :: rest).length (Nat.le_refl _) (by simp)
        exact (agrees fuel).loop _ t rest enough below
      case find =>
        intro wanted prefers wants
        obtain ⟨enough, below⟩ := @deeper .search (t :: rest).length (Nat.le_refl _) (by simp)
        exact topLevel_eq (Nat.le_of_lt enough) below wants
      case tree =>
        intro us shorter
        obtain ⟨enough, below⟩ := @deeper .tree us.length (Nat.le_of_lt shorter) fun _ => shorter
        exact ih enough below

end Scriptlet.Proofs.GuardedReader
