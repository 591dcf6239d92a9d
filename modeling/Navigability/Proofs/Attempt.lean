import Navigability.Attempt

/-!
# Attempts side by side

Two attempts run in parallel when they start in related states, return the same value or fail in
the same way, and leave related states again, also when they fail. This is how it is said that what
an attempt returns does not depend on a part of the state: it runs in parallel with itself from any
two states that agree on the rest.

## Main definitions

* `Attempt.left`, `Attempt.outcome`: the state that an attempt left, and how it ended
* `Attempt.Matches Q`: two outcomes with the same value or failure, and states related by `Q`
* `Attempt.Parallel P Q`: two attempts whose outcomes match from states related by `P`
* `Attempt.Keeps P`: an attempt that leaves a state with `P` where it finds one

## Main results

* `Attempt.Parallel.bind`, `Attempt.Keeps.bind`: two attempts in a row
-/

namespace Navigability.Attempt

variable {σ τ α β : Type}

/-- The state that was left, in success or in failure. -/
def left : EStateM.Result Failure σ α → σ
  | .ok _ s => s
  | .error _ s => s

/-- The value or the failure, without the state that was left. -/
def outcome : EStateM.Result Failure σ α → Except Failure α
  | .ok a _ => .ok a
  | .error failure _ => .error failure

theorem eq_ok_left {result : EStateM.Result Failure σ α} {a : α} (ok : outcome result = .ok a) :
    result = .ok a (left result) := by
  cases result with
  | ok b s =>
    cases ok
    rfl
  | error failure s => cases ok

/-- Two outcomes with the same value or the same failure, and related states. -/
inductive Matches (Q : σ → τ → Prop) :
    EStateM.Result Failure σ α → EStateM.Result Failure τ α → Prop
  | ok {a : α} {s : σ} {t : τ} (related : Q s t) : Matches Q (.ok a s) (.ok a t)
  | error {failure : Failure} {s : σ} {t : τ} (related : Q s t) :
    Matches Q (.error failure s) (.error failure t)

/-- Two attempts whose outcomes match when they start in related states. -/
def Parallel (P Q : σ → τ → Prop) (first : Attempt σ α) (second : Attempt τ α) : Prop :=
  ∀ s t, P s t → Matches Q (first s) (second t)

/-- An attempt that leaves a state with a property where it finds one. -/
def Keeps (P : σ → Prop) (attempt : Attempt σ α) : Prop := ∀ s, P s → P (left (attempt s))

/-- What follows sees of an attempt only how it ended. -/
theorem bind_of_eq {first : Attempt σ α} {next : α → Attempt σ β} {second : Attempt σ α} {s t : σ}
    (same : first s = second t) : (first >>= next) s = (second >>= next) t := by
  simp only [bind, EStateM.bind, same]

theorem Matches.left {Q : σ → τ → Prop} {first : EStateM.Result Failure σ α}
    {second : EStateM.Result Failure τ α} (same : Matches Q first second) :
    Q (left first) (left second) := by
  cases same with
  | ok related => exact related
  | error related => exact related

section Parallel

variable {P Q : σ → τ → Prop}

theorem Parallel.pure (a : α) : Parallel P P (Pure.pure a) (Pure.pure a) :=
  fun _ _ related => .ok related

theorem Parallel.check (outcome : Except Failure α) :
    Parallel P P (check outcome) (check outcome) := by
  intro s t related
  cases outcome with
  | ok a => exact .ok related
  | error failure => exact .error related

/-- Two attempts in a row run in parallel with two attempts in a row. -/
theorem Parallel.bind {first : Attempt σ α} {second : Attempt τ α}
    {next : α → Attempt σ β} {next' : α → Attempt τ β} (starts : Parallel P Q first second)
    (goesOn : ∀ a, Parallel Q Q (next a) (next' a)) :
    Parallel P Q (first >>= next) (second >>= next') := by
  intro s t related
  have same := starts s t related
  generalize ran : first s = r at same
  generalize ran' : second t = r' at same
  cases same with
  | ok related =>
    rw [bind_of_ok ran, bind_of_ok ran']
    exact goesOn _ _ _ related
  | error related =>
    rw [bind_of_error ran, bind_of_error ran']
    exact .error related

end Parallel

section Keeps

variable {P : σ → Prop}

theorem Keeps.of_ok {attempt : Attempt σ α} {s t : σ} {a : α} (keeps : Keeps P attempt)
    (ran : attempt s = .ok a t) (holds : P s) : P t := by
  have kept := keeps s holds
  rwa [ran] at kept

theorem Keeps.pure (a : α) : Keeps P (Pure.pure a) := fun _ holds => holds

theorem Keeps.check (outcome : Except Failure α) : Keeps P (check outcome) := by
  intro s holds
  cases outcome <;> exact holds

theorem Keeps.get : Keeps P (MonadState.get : Attempt σ σ) := fun _ holds => holds

theorem Keeps.modify {f : σ → σ} (kept : ∀ s, P s → P (f s)) :
    Keeps P (modify f : Attempt σ PUnit) := kept

theorem Keeps.bind {first : Attempt σ α} {next : α → Attempt σ β} (starts : Keeps P first)
    (goesOn : ∀ a, Keeps P (next a)) : Keeps P (first >>= next) := by
  intro s holds
  have kept := starts s holds
  cases ran : first s with
  | ok a t =>
    rw [ran] at kept
    rw [bind_of_ok ran]
    exact goesOn a t kept
  | error failure t =>
    rw [ran] at kept
    rw [bind_of_error ran]
    exact kept

end Keeps

end Navigability.Attempt
