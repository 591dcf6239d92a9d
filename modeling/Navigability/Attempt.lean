import Navigability.Failure

/-!
# Attempts

An attempt works on a state and either returns a value or fails. It leaves a state in both cases:
storage outlives a failed run, and so does what a run reported before it failed.

## Main definitions

* `Attempt σ α`: attempts on states `σ` with values `α`
* `Attempt.check`: a computation without state, as an attempt

## Main results

* `Attempt.bind_eq_ok`: two attempts in a row succeed when both do
-/

namespace Navigability

/-- A computation on a state, which leaves a state also when it fails. -/
abbrev Attempt (σ α : Type) := EStateM Failure σ α

namespace Attempt

variable {σ α β : Type}

/-- A computation without state, as an attempt. -/
def check (outcome : Except Failure α) : Attempt σ α := fun s =>
  match outcome with
  | .ok a => .ok a s
  | .error failure => .error failure s

theorem check_eq_ok {outcome : Except Failure α} {s s' : σ} {a : α} :
    check outcome s = .ok a s' ↔ outcome = .ok a ∧ s = s' := by
  cases outcome <;> simp [check]

theorem pure_eq_ok {a b : α} {s s' : σ} :
    (pure a : Attempt σ α) s = .ok b s' ↔ a = b ∧ s = s' := by
  simp [pure, EStateM.pure]

theorem get_eq_ok {s s' t : σ} : (get : Attempt σ σ) s = .ok t s' ↔ s = t ∧ s = s' := by
  show EStateM.Result.ok s s = .ok t s' ↔ s = t ∧ s = s'
  simp

theorem modify_eq_ok {f : σ → σ} {s s' : σ} {u : PUnit} :
    (modify f : Attempt σ PUnit) s = .ok u s' ↔ f s = s' := by
  show EStateM.Result.ok PUnit.unit (f s) = .ok u s' ↔ f s = s'
  simp

theorem bind_eq_ok {first : Attempt σ α} {next : α → Attempt σ β} {s s' : σ} {b : β} :
    (first >>= next) s = .ok b s' ↔ ∃ a t, first s = .ok a t ∧ next a t = .ok b s' := by
  simp only [bind, EStateM.bind]
  cases h : first s with
  | ok a t =>
    constructor
    · exact fun h' => ⟨a, t, rfl, h'⟩
    · rintro ⟨a', t', h', h''⟩
      cases h'
      exact h''
  | error failure t => simp

theorem bind_of_ok {first : Attempt σ α} {next : α → Attempt σ β} {s t : σ} {a : α}
    (ran : first s = .ok a t) : (first >>= next) s = next a t := by
  simp only [bind, EStateM.bind, ran]

theorem bind_of_error {first : Attempt σ α} {next : α → Attempt σ β} {s t : σ} {failure : Failure}
    (ran : first s = .error failure t) : (first >>= next) s = .error failure t := by
  simp only [bind, EStateM.bind, ran]

end Attempt

end Navigability
