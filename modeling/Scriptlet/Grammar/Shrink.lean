import Scriptlet.Grammar.Shape

/-! Every part of a statement is shorter than the statement, so reading the parts of the parts comes
to an end. -/

namespace Scriptlet.Grammar

/-- The rule takes at least one token for itself. -/
def Shrinks (rule : Rule) : Prop :=
  ∀ {t : Token} {rest : List Token} {shape : Shape}, rule t rest = .ok (some shape) →
    ∀ part ∈ shape.parts, part.length ≤ rest.length

theorem groupRule_shrinks : Shrinks groupRule := by
  intro t rest shape found part member
  simp only [groupRule] at found
  repeat' split at found
  all_goals try cases found
  all_goals simp_all [Shape.parts]

theorem blockRule_shrinks : Shrinks blockRule := by
  intro t rest shape found part member
  simp only [blockRule] at found
  repeat' split at found
  all_goals try cases found
  have := length_le_of_mem_statements member
  simp only [List.length_dropLast] at this
  omega

theorem returnRule_shrinks : Shrinks returnRule := by
  intro t rest shape found part member
  simp only [returnRule] at found
  repeat' split at found
  all_goals try cases found
  all_goals simp_all [Shape.parts]

theorem branchRule_shrinks : Shrinks branchRule := by
  intro t rest shape found part member
  simp only [branchRule] at found
  repeat' split at found
  all_goals try cases found
  rename_i parts _ _
  cases otherwise : parts.otherwise <;>
    simp only [Shape.parts, otherwise, Option.map_none, Option.map_some, Option.toList_none,
      Option.toList_some, List.mem_cons, List.not_mem_nil, or_false] at member
  · rcases member with rfl | rfl <;> grind
  · rcases member with rfl | rfl | rfl <;> grind

theorem loopRule_shrinks : Shrinks loopRule := by
  intro t rest shape found part member
  simp only [loopRule] at found
  repeat' split at found
  all_goals try cases found
  simp only [Shape.parts, List.mem_cons, List.not_mem_nil, or_false] at member
  rcases member with rfl | rfl <;> grind

theorem negationRule_shrinks : Shrinks negationRule := by
  intro t rest shape found part member
  simp only [negationRule] at found
  repeat' split at found
  all_goals try cases found
  all_goals simp_all [Shape.parts]

theorem leafRule_shrinks : Shrinks leafRule := by
  intro t rest shape found part member
  simp only [leafRule] at found
  repeat' split at found
  all_goals try cases found
  all_goals simp_all [Shape.parts]

theorem assignmentRule_shrinks : Shrinks assignmentRule := by
  intro t rest shape found part member
  simp only [assignmentRule, splitAt?] at found
  split at found
  · cases found
  next there =>
    have lengths := length_of_splitOutside? there
    simp only [List.length_cons] at lengths
    repeat' split at found
    all_goals try cases found
    all_goals
      simp only [Shape.parts, List.mem_singleton] at member
      subst member
      omega

theorem binaryShape_shrinks {function : String} {split : Split} {rest : List Token} {shape : Shape}
    (lengths : split.before.length + 1 + split.after.length = rest.length + 1)
    (found : binaryShape function split = .ok (some shape)) :
    ∀ part ∈ shape.parts, part.length ≤ rest.length := by
  intro part member
  simp only [binaryShape] at found
  repeat' split at found
  all_goals try cases found
  simp only [Shape.parts, List.mem_cons, List.not_mem_nil, or_false] at member
  rcases member with rfl | rfl <;> omega

theorem operatorRule_shrinks (kinds : List TokenKind) : Shrinks (operatorRule kinds) := by
  intro t rest shape found
  simp only [operatorRule, splitAt?] at found
  split at found
  · cases found
  next there =>
    exact binaryShape_shrinks (length_of_splitOutside? there) found

theorem additiveRule_shrinks : Shrinks additiveRule := by
  intro t rest shape found
  simp only [additiveRule] at found
  split at found
  · cases found
  next there =>
    have lengths := length_of_splitOutside? there
    split at found
    · split at found
      · cases found
      · exact binaryShape_shrinks lengths found
    · exact binaryShape_shrinks lengths found

theorem notRule_shrinks : Shrinks notRule := by
  intro t rest shape found part member
  simp only [notRule] at found
  repeat' split at found
  all_goals try cases found
  all_goals simp_all [Shape.parts]

theorem callRule_shrinks : Shrinks callRule := by
  intro t rest shape found part member
  simp only [callRule] at found
  split at found
  · cases found
  next last front ends =>
    have lengths := congrArg List.length ends
    simp only [List.length_reverse, List.length_cons] at lengths
    repeat' split at found
    all_goals try cases found
    simp only [Shape.parts, List.mem_cons] at member
    rcases member with rfl | inside
    · simp only [List.length_reverse, List.length_drop]
      omega
    · have := length_le_of_mem_arguments inside
      simp only [List.length_reverse, List.length_take] at this
      omega

theorem memberRule_shrinks : Shrinks memberRule := by
  intro t rest shape found part member
  simp only [memberRule] at found
  split at found
  next name dot base ends =>
    have lengths := congrArg List.length ends
    simp only [List.length_reverse, List.length_cons] at lengths
    split at found
    · cases found
      simp only [Shape.parts, List.mem_singleton] at member
      subst member
      simp only [List.length_reverse]
      omega
    · cases found
  · cases found

theorem rules_shrink : ∀ rule ∈ rules, Shrinks rule := by
  intro rule member
  simp only [rules, List.mem_cons, List.not_mem_nil, or_false] at member
  rcases member with rfl | rfl | rfl | rfl | rfl | rfl | rfl | rfl | rfl | rfl | rfl | rfl | rfl |
    rfl | rfl | rfl
  · exact groupRule_shrinks
  · exact blockRule_shrinks
  · exact returnRule_shrinks
  · exact branchRule_shrinks
  · exact loopRule_shrinks
  · exact negationRule_shrinks
  · exact leafRule_shrinks
  · exact assignmentRule_shrinks
  · exact operatorRule_shrinks _
  · exact additiveRule_shrinks
  · exact operatorRule_shrinks _
  · exact operatorRule_shrinks _
  · exact operatorRule_shrinks _
  · exact notRule_shrinks
  · exact callRule_shrinks
  · exact memberRule_shrinks

theorem firstShape_shrinks {t : Token} {rest : List Token} {candidates : List Rule} {shape : Shape}
    (shrink : ∀ rule ∈ candidates, Shrinks rule)
    (found : firstShape t rest candidates = .ok shape) :
    ∀ part ∈ shape.parts, part.length ≤ rest.length := by
  induction candidates with
  | nil => cases found
  | cons rule others ih =>
    simp only [firstShape] at found
    split at found
    · cases found
    next there =>
      cases found
      exact shrink rule List.mem_cons_self there
    · exact ih (fun rule member => shrink rule (List.mem_cons_of_mem _ member)) found

theorem length_lt_of_mem_parts {tokens part : List Token} {found : Shape}
    (shaped : shape tokens = .ok found) (member : part ∈ found.parts) :
    part.length < tokens.length := by
  cases tokens with
  | nil => cases shaped
  | cons t rest => exact Nat.lt_succ_of_le (firstShape_shrinks rules_shrink shaped part member)

end Scriptlet.Grammar
