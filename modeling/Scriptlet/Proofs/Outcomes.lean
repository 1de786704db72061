/-! A result that was computed in steps tells what each of the steps gave. -/

namespace Scriptlet.Proofs
variable {ε α β : Type} {outcome : Except ε α}

theorem map_eq_ok {f : α → β} {result : β} (mapped : outcome.map f = .ok result) :
    ∃ found, outcome = .ok found ∧ f found = result := by
  cases outcome with
  | error e => cases mapped
  | ok found => exact ⟨found, rfl, Except.ok.inj mapped⟩

theorem bind_eq_ok {next : α → Except ε β} {result : β} (ran : (outcome >>= next) = .ok result) :
    ∃ found, outcome = .ok found ∧ next found = .ok result := by
  cases outcome with
  | error e => cases ran
  | ok found => exact ⟨found, rfl, ran⟩

theorem ok_of_toOption {value : α} (given : outcome.toOption = some value) : outcome = .ok value := by
  cases outcome with
  | error e => cases given
  | ok other =>
    cases given
    rfl

end Scriptlet.Proofs
