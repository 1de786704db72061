import Scriptlet.Proofs.GrammarCuts

/-! How long a statement and the parts of a conditional can be. Whatever the tokens are, a length that is measured is
not zero and stays within them, so cutting by it loses nothing and leaves less than there was. -/

namespace Scriptlet.Proofs.SegmentBounds
open Grammar GrammarSegments GrammarCuts

/-- What the scan does at a token: it ends in front of it, or it passes so many tokens and is then inside so many
parentheses. -/
def stepOver (started : Bool) (parens : Nat) (t : Token) (rest : List Token) :
    Except ParseError (Option (Nat × Nat)) :=
  match t.kind with
  | .ifWord => (branchLengths t rest).map fun parts => some (parens, parts.total)
  | .whileWord => (loopLengths t rest).map fun parts => some (parens, parts.total)
  | .openBrace => (blockLength t rest).map fun n => some (parens, n)
  | .openParen => .ok (some (parens + 1, 1))
  | .closeParen =>
    if parens = 0 then if started then .ok none else .error (t.fault .strayCloseParen)
    else .ok (some (parens - 1, 1))
  | .comma =>
    if parens = 0 then if started then .ok none else .error (t.fault .strayComma)
    else .ok (some (parens, 1))
  | .closeBrace => .error (t.fault .strayCloseBrace)
  | .funcWord => .error (t.fault .strayFunction)
  | .elseWord => .error (t.fault .strayElse)
  | .returnWord => .error (t.fault .strayReturn)
  | _ => .ok (some (parens, 1))

/-- What is left of the scan after a step. -/
def afterStep (t : Token) (rest : List Token) : Option (Nat × Nat) → Except ParseError Nat
  | none => .ok 0
  | some (parens, n) => onward parens ((t :: rest)[n - 1]?.getD t) n (rest.drop (n - 1))

variable {started : Bool} {parens n : Nat} {t : Token} {rest ts : List Token}

theorem scan_step (started : Bool) (parens : Nat) (t : Token) (rest : List Token) :
    scanLength started parens (t :: rest) = stepOver started parens t rest >>= afterStep t rest := by
  rw [scanLength, stepOver]
  generalize t.kind = kind
  cases kind with
  | ifWord => cases branchLengths t rest <;> rfl
  | whileWord => cases loopLengths t rest <;> rfl
  | openBrace => cases blockLength t rest <;> rfl
  | closeParen =>
    dsimp only
    split
    · split <;> rfl
    · rfl
  | comma =>
    dsimp only
    split
    · split <;> rfl
    · rfl
  | _ => rfl

theorem closing_le {opening closing : TokenKind} {depth : Nat} (found : closing? opening closing depth ts = some n) :
    1 ≤ n ∧ n ≤ ts.length := by
  obtain ⟨front, last, rest, rfl, _, rfl⟩ := closing_cut found
  simp only [List.length_append, List.length_cons]
  omega

theorem blockLength_le (found : blockLength t rest = .ok n) : 1 ≤ n ∧ n ≤ rest.length + 1 := by
  rw [blockLength] at found
  split at found
  next closed =>
    cases found
    exact closing_le closed
  · cases found

/-- The parts of an `if` lie one behind the other within so many tokens, and none is empty. -/
structure BranchWithin (size : Nat) (parts : BranchLengths) : Prop where
  condition : 1 ≤ parts.condition
  action : 1 ≤ parts.action
  both : parts.condition + parts.action ≤ size
  otherwise : ∀ n, parts.otherwise = some n → 1 ≤ n ∧ parts.condition + parts.action + 1 + n ≤ size

structure LoopWithin (size : Nat) (parts : LoopLengths) : Prop where
  condition : 1 ≤ parts.condition
  action : 1 ≤ parts.action
  both : parts.condition + parts.action ≤ size

theorem BranchWithin.total {size : Nat} {parts : BranchLengths} (within : BranchWithin size parts) :
    1 ≤ parts.total ∧ parts.total ≤ size + 1 := by
  have both := within.both
  rw [BranchLengths.total]
  split
  · omega
  next n given =>
    have last := (within.otherwise n given).2
    omega

theorem LoopWithin.total {size : Nat} {parts : LoopLengths} (within : LoopWithin size parts) :
    1 ≤ parts.total ∧ parts.total ≤ size + 1 := by
  have both := within.both
  rw [LoopLengths.total]
  omega

/-- A step passes at least the token at hand, and no more than there are. -/
def StepWithin (size : Nat) (step : Option (Nat × Nat)) : Prop := ∀ passed ∈ step, 1 ≤ passed.2 ∧ passed.2 ≤ size

theorem stepOver_within {step : Option (Nat × Nat)}
    (branch : ∀ parts, branchLengths t rest = .ok parts → BranchWithin rest.length parts)
    (loop : ∀ parts, loopLengths t rest = .ok parts → LoopWithin rest.length parts)
    (stepped : stepOver started parens t rest = .ok step) : StepWithin (rest.length + 1) step := by
  have single (parens : Nat) : StepWithin (rest.length + 1) (some (parens, 1)) := by
    rintro passed ⟨⟩
    simp
  rw [stepOver] at stepped
  split at stepped
  · obtain ⟨parts, measured, rfl⟩ := map_eq_ok stepped
    rintro passed ⟨⟩
    exact (branch parts measured).total
  · obtain ⟨parts, measured, rfl⟩ := map_eq_ok stepped
    rintro passed ⟨⟩
    exact (loop parts measured).total
  · obtain ⟨n, measured, rfl⟩ := map_eq_ok stepped
    rintro passed ⟨⟩
    exact blockLength_le measured
  · cases stepped
    exact single _
  · split at stepped
    · split at stepped
      · cases stepped
        simp [StepWithin]
      · cases stepped
    · cases stepped
      exact single _
  · split at stepped
    · split at stepped
      · cases stepped
        simp [StepWithin]
      · cases stepped
    · cases stepped
      exact single _
  all_goals cases stepped
  exact single _

/-- A statement that has not begun does not end. -/
theorem stepOver_started (stepped : stepOver started parens t rest = .ok none) : started = true := by
  rw [stepOver] at stepped
  split at stepped
  · cases (map_eq_ok stepped).choose_spec.2
  · cases (map_eq_ok stepped).choose_spec.2
  · cases (map_eq_ok stepped).choose_spec.2
  · cases stepped
  · split at stepped
    · split at stepped
      · assumption
      · cases stepped
    · cases stepped
  · split at stepped
    · split at stepped
      · assumption
      · cases stepped
    · cases stepped
  all_goals cases stepped

private theorem onward_le {last : Token} {length : Nat} {rest : List Token}
    (later : ∀ n, scanLength true parens rest = .ok n → n ≤ rest.length)
    (found : onward parens last length rest = .ok n) : length ≤ n ∧ n ≤ length + rest.length := by
  rw [onward] at found
  split at found
  · cases found
    omega
  · obtain ⟨more, scanned, rfl⟩ := map_eq_ok found
    have bound := later more scanned
    omega

mutual

theorem segmentLength_le {ts : List Token} {n : Nat} (found : segmentLength ts = .ok n) : 1 ≤ n ∧ n ≤ ts.length := by
  match ts with
  | [] =>
    rw [segmentLength] at found
    cases found
  | t :: rest =>
    by_cases branch : t.kind = .ifWord
    · rw [segment_branch_word branch] at found
      obtain ⟨parts, measured, rfl⟩ := map_eq_ok found
      exact (branchLengths_within measured).total
    by_cases loop : t.kind = .whileWord
    · rw [segment_loop_word loop] at found
      obtain ⟨parts, measured, rfl⟩ := map_eq_ok found
      exact (loopLengths_within measured).total
    by_cases ret : t.kind = .returnWord
    · rw [segmentLength] at found
      simp only [ret] at found
      split at found
      · cases found
        simp
      · obtain ⟨more, scanned, rfl⟩ := map_eq_ok found
        have bound := (scanLength_le scanned).1
        rw [List.length_cons]
        omega
    · rw [segment_scan branch loop ret] at found
      have bounds := scanLength_le found
      exact ⟨bounds.2 rfl (by simp), bounds.1⟩
termination_by 3 * ts.length + 2
decreasing_by all_goals subst_vars; simp +arith

theorem scanLength_le {started : Bool} {parens n : Nat} {ts : List Token}
    (found : scanLength started parens ts = .ok n) :
    n ≤ ts.length ∧ (started = false → ts ≠ [] → 1 ≤ n) := by
  match ts with
  | [] =>
    rw [scanLength] at found
    cases found
    simp
  | t :: rest =>
    rw [scan_step] at found
    obtain ⟨step, stepped, found⟩ := bind_eq_ok found
    have within := stepOver_within (fun _ => branchLengths_within) (fun _ => loopLengths_within) stepped
    cases step with
    | none =>
      cases found
      exact ⟨Nat.zero_le _, fun fresh => by simp [stepOver_started stepped] at fresh⟩
    | some passed =>
      obtain ⟨positive, bound⟩ := within _ rfl
      have bounds := onward_le (fun _ scanned => (scanLength_le scanned).1) found
      simp only [List.length_drop, List.length_cons] at bounds bound ⊢
      omega
termination_by 3 * ts.length + 1
decreasing_by all_goals subst_vars; simp only [List.length_cons, List.length_drop]; omega

theorem branchLengths_within {word : Token} {body : List Token} {parts : BranchLengths}
    (found : branchLengths word body = .ok parts) : BranchWithin body.length parts := by
  rw [branchLengths] at found
  split at found
  · cases found
  · obtain ⟨condition, first, found⟩ := bind_eq_ok found
    have firstBounds := segmentLength_le first
    dsimp only at found
    split at found
    · cases found
    · obtain ⟨action, second, found⟩ := bind_eq_ok found
      have secondBounds := segmentLength_le second
      rw [List.length_drop] at secondBounds
      have both : condition + action ≤ body.length := by omega
      split at found
      · cases found
        exact ⟨firstBounds.1, secondBounds.1, both, by simp⟩
      · split at found
        · split at found
          · cases found
          · obtain ⟨otherwise, third, found⟩ := bind_eq_ok found
            have thirdBounds := segmentLength_le third
            rw [List.length_drop] at thirdBounds
            cases found
            refine ⟨firstBounds.1, secondBounds.1, both, ?_⟩
            rintro n ⟨⟩
            dsimp only
            omega
        · cases found
          exact ⟨firstBounds.1, secondBounds.1, both, by simp⟩
termination_by 3 * body.length + 3
decreasing_by
  all_goals
    try rw [List.length_drop]
    omega

theorem loopLengths_within {word : Token} {body : List Token} {parts : LoopLengths}
    (found : loopLengths word body = .ok parts) : LoopWithin body.length parts := by
  rw [loopLengths] at found
  split at found
  · cases found
  · obtain ⟨condition, first, found⟩ := bind_eq_ok found
    have firstBounds := segmentLength_le first
    dsimp only at found
    split at found
    · cases found
    · obtain ⟨action, second, found⟩ := bind_eq_ok found
      have secondBounds := segmentLength_le second
      rw [List.length_drop] at secondBounds
      cases found
      refine ⟨firstBounds.1, secondBounds.1, ?_⟩
      dsimp only
      omega
termination_by 3 * body.length + 3
decreasing_by
  all_goals
    try rw [List.length_drop]
    omega

end

end Scriptlet.Proofs.SegmentBounds
