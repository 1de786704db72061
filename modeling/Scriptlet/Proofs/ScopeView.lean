import Mathlib.Logic.Function.Basic
import Scriptlet.Machine.Basic

/-! Frames as what they say of names. To a program a frame is a function from names to values, and all it can do
to the frames around it is to set one name. -/

namespace Scriptlet.Proofs.ScopeView

section Frames
variable {name : String} {value : Value}

private theorem lookup_setEntry (key : String) (entries : List (String × Value)) :
    (Frame.setEntry name value entries).lookup key = if key = name then some value else entries.lookup key := by
  induction entries with
  | nil =>
    rw [Frame.setEntry, List.lookup_cons]
    by_cases same : key = name
    · simp [same]
    · simp [beq_false_of_ne same, same]
  | cons entry rest ih =>
    obtain ⟨other, old⟩ := entry
    rw [Frame.setEntry]
    by_cases found : other = name
    · subst found
      rw [if_pos rfl, List.lookup_cons, List.lookup_cons]
      by_cases same : key = other
      · simp [same]
      · simp [beq_false_of_ne same, same]
    · rw [if_neg found, List.lookup_cons, List.lookup_cons, ih]
      by_cases same : key = other
      · simp [same, found]
      · simp [beq_false_of_ne same]

theorem get_set (f : Frame) : (f.set name value).get? = Function.update f.get? name (some value) := by
  funext key
  rw [Function.update_apply]
  exact lookup_setEntry key f.entries

private theorem binds_eq (f : Frame) : f.binds = fun name => (f.get? name).isSome := rfl

theorem binds_set (f : Frame) : (f.set name value).binds = Function.update f.binds name true := by
  funext key
  rw [binds_eq, get_set]
  by_cases same : key = name
  · subst same
    simp
  · simp [same, binds_eq]

theorem binds_set_mono {f : Frame} {other : String} (bound : f.binds other = true) :
    (f.set name value).binds other = true := by
  rw [binds_set, Function.update_apply, bound, ite_self]

theorem binds_set_of_binds {f : Frame} (bound : f.binds name = true) : (f.set name value).binds = f.binds := by
  rw [binds_set, ← bound, Function.update_eq_self]

end Frames

section Setting
variable {name : String} {value : Value}

/-- The frames of a call and the global frame after a variable has been set. -/
def setIn (name : String) (value : Value) (frames : List Frame) (globals : Frame) : List Frame × Frame :=
  match Machine.overwrite? name value frames with
  | some changed => (changed, globals)
  | none =>
    match frames with
    | [] => ([], globals.set name value)
    | frame :: outer =>
      if globals.binds name then (frame :: outer, globals.set name value)
      else (frame.set name value :: outer, globals)

theorem assign_eq (m : Machine) : m.assign name value = { m with
    frames := (setIn name value m.frames m.globals).1, globals := (setIn name value m.frames m.globals).2 } := by
  unfold Machine.assign setIn
  cases Machine.overwrite? name value m.frames with
  | some changed => rfl
  | none =>
    cases m.frames with
    | nil => rfl
    | cons frame outer =>
      dsimp only
      split <;> rfl

theorem overwrite_binds {frames changed : List Frame} (found : Machine.overwrite? name value frames = some changed) :
    changed.map Frame.binds = frames.map Frame.binds := by
  induction frames generalizing changed with
  | nil => cases found
  | cons frame outer ih =>
    rw [Machine.overwrite?] at found
    split at found
    next bound =>
      cases found
      rw [List.map_cons, binds_set_of_binds bound, List.map_cons]
    · obtain ⟨others, inner, rfl⟩ := Option.map_eq_some_iff.mp found
      rw [List.map_cons, ih inner, List.map_cons]

/-- Frames that say the same say the same after an overwriting. -/
theorem overwrite_congr {first second : List Frame} (same : first.map Frame.get? = second.map Frame.get?) :
    (Machine.overwrite? name value first).map (List.map Frame.get?) =
      (Machine.overwrite? name value second).map (List.map Frame.get?) := by
  induction first generalizing second with
  | nil =>
    cases List.map_eq_nil_iff.mp same.symm
    rfl
  | cons frame outer ih =>
    obtain ⟨other, others, rfl, alike, rest⟩ := List.map_eq_cons_iff.mp same.symm
    have bound : frame.binds name = other.binds name := by rw [binds_eq, binds_eq, alike]
    rw [Machine.overwrite?, Machine.overwrite?, bound]
    split
    · simp only [Option.map_some, List.map_cons, get_set, alike, rest]
    · have front (f : Frame) : List.map Frame.get? ∘ (f :: ·) = (f.get? :: ·) ∘ List.map Frame.get? := rfl
      rw [Option.map_map, Option.map_map, front, front, ← Option.map_map, ← Option.map_map, ih rest.symm, alike]

theorem setIn_congr {first second : List Frame} {globals others : Frame}
    (same : first.map Frame.get? = second.map Frame.get?) (alike : globals.get? = others.get?) :
    (setIn name value first globals).1.map Frame.get? = (setIn name value second others).1.map Frame.get? ∧
    (setIn name value first globals).2.get? = (setIn name value second others).2.get? := by
  have bound : globals.binds name = others.binds name := by rw [binds_eq, binds_eq, alike]
  have overwritten := @overwrite_congr name value first second same
  unfold setIn
  cases found : Machine.overwrite? name value first with
  | some changed =>
    rw [found] at overwritten
    obtain ⟨_, there, same⟩ := Option.map_eq_some_iff.mp overwritten.symm
    rw [there]
    exact ⟨same.symm, alike⟩
  | none =>
    rw [found] at overwritten
    rw [Option.map_eq_none_iff.mp overwritten.symm]
    cases first with
    | nil =>
      cases List.map_eq_nil_iff.mp same.symm
      exact ⟨rfl, by simp only [get_set, alike]⟩
    | cons frame outer =>
      obtain ⟨other, others, rfl, like, rest⟩ := List.map_eq_cons_iff.mp same.symm
      simp only [bound]
      split
      · exact ⟨same, by simp only [get_set, alike]⟩
      · exact ⟨by simp only [List.map_cons, get_set, like, rest], alike⟩

end Setting

section All
variable {holds : Frame → Prop} {name : String} {value : Value}

private theorem overwrite_all {frames changed : List Frame} (set : ∀ frame, holds frame → holds (frame.set name value))
    (all : ∀ frame ∈ frames, holds frame) (found : Machine.overwrite? name value frames = some changed) :
    ∀ frame ∈ changed, holds frame := by
  induction frames generalizing changed with
  | nil => cases found
  | cons frame outer ih =>
    obtain ⟨first, others⟩ := List.forall_mem_cons.mp all
    rw [Machine.overwrite?] at found
    split at found
    · cases found
      exact List.forall_mem_cons.mpr ⟨set frame first, others⟩
    · obtain ⟨inner, within, rfl⟩ := Option.map_eq_some_iff.mp found
      exact List.forall_mem_cons.mpr ⟨first, ih others within⟩

theorem setIn_all {frames : List Frame} {globals : Frame} (set : ∀ frame, holds frame → holds (frame.set name value))
    (inner : ∀ frame ∈ frames, holds frame) (outer : holds globals) :
    (∀ frame ∈ (setIn name value frames globals).1, holds frame) ∧ holds (setIn name value frames globals).2 := by
  unfold setIn
  cases found : Machine.overwrite? name value frames with
  | some changed => exact ⟨overwrite_all set inner found, outer⟩
  | none =>
    cases frames with
    | nil => exact ⟨by simp, set _ outer⟩
    | cons frame others =>
      dsimp only
      split
      · exact ⟨inner, set _ outer⟩
      · obtain ⟨first, rest⟩ := List.forall_mem_cons.mp inner
        exact ⟨List.forall_mem_cons.mpr ⟨set _ first, rest⟩, outer⟩

/-- What holds of the empty frame, and still after an argument has been entered, holds of the frame of a call. -/
theorem parameters_all (empty : holds {}) (params : List String) {args : List Value}
    (set : ∀ frame name, ∀ value ∈ args, holds frame → holds (frame.set name value)) :
    holds (Frame.ofParameters params args) := by
  have entered : ∀ (pairs : List (String × Value)) (frame : Frame), (∀ pair ∈ pairs, pair.2 ∈ args) → holds frame →
      holds (pairs.foldl (fun f entry => f.set entry.1 entry.2) frame) := by
    intro pairs
    induction pairs with
    | nil => exact fun frame _ filled => filled
    | cons pair pairs ih =>
      intro frame given filled
      obtain ⟨first, others⟩ := List.forall_mem_cons.mp given
      exact ih _ others (set frame pair.1 pair.2 first filled)
  exact entered _ _ (fun pair member => (List.of_mem_zip member).2) empty

end All

end Scriptlet.Proofs.ScopeView
