import Mathlib.Data.Nat.Find
import Mathlib.Order.Bounds.Basic
import Navigability.Proofs.Selection.Path

/-!
# Distances in a selection

A walk is a path with the number of its steps. The distance of one point from another is the number
of steps of a shortest walk there.

## Main definitions

* `Selection.Walk graph k u v`: a walk of `k` steps from `u` to `v`
* `Selection.Distance graph u v d`: a shortest walk from `u` to `v` has `d` steps
* `Selection.Nearest graph u among v`: no point `among` others is nearer to `u` than `v`

## Main results

* `Selection.reaches_iff_walk`: a path is a walk of some number of steps
* `Selection.Reaches.exists_distance`: what can be reached has a distance
-/

namespace Navigability.Selection

variable {γ : Type} [Adjacency γ]

/-- A walk of the given number of steps from one point to another. -/
def Walk (selection : Selection) (graph : γ) : Nat → Nat → Nat → Prop
  | 0, u, v => u = v
  | length + 1, u, v => ∃ w, selection.Walk graph length u w ∧ selection.Step graph w v

/-- The number of steps of a shortest walk from one point to another. -/
def Distance (selection : Selection) (graph : γ) (u v d : Nat) : Prop :=
  IsLeast {length | selection.Walk graph length u v} d

/-- A point at the least distance among the points with a property. -/
structure Nearest (selection : Selection) (graph : γ) (u : Nat) (among : Nat → Prop) (v : Nat) :
    Prop where
  mem : among v
  least : ∃ d, selection.Distance graph u v d ∧
    ∀ w e, among w → selection.Distance graph u w e → d ≤ e

variable {selection : Selection} {graph : γ} {u v d : Nat}

theorem Walk.reaches {length : Nat} (walk : selection.Walk graph length u v) :
    selection.Reaches graph u v := by
  induction length generalizing v with
  | zero =>
    rw [show u = v from walk]
  | succ length ih =>
    obtain ⟨w, before, step⟩ := walk
    exact (ih before).tail step

theorem reaches_iff_walk :
    selection.Reaches graph u v ↔ ∃ length, selection.Walk graph length u v := by
  constructor
  · intro path
    induction path with
    | refl => exact ⟨0, rfl⟩
    | tail _ step ih =>
      obtain ⟨length, walk⟩ := ih
      exact ⟨length + 1, _, walk, step⟩
  · rintro ⟨length, walk⟩
    exact walk.reaches

theorem Distance.reaches (distance : selection.Distance graph u v d) :
    selection.Reaches graph u v :=
  Walk.reaches distance.1

theorem Nearest.reaches {among : Nat → Prop} (nearest : selection.Nearest graph u among v) :
    selection.Reaches graph u v := by
  obtain ⟨d, distance, -⟩ := nearest.least
  exact distance.reaches

theorem Reaches.exists_distance (path : selection.Reaches graph u v) :
    ∃ d, selection.Distance graph u v d := by
  classical
  have walks := reaches_iff_walk.1 path
  exact ⟨Nat.find walks, Nat.find_spec walks, fun length walk => Nat.find_min' walks walk⟩

end Navigability.Selection
