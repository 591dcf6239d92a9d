import Mathlib.Logic.Relation
import Navigability.Graph.Basic
import Navigability.Selection.Basic

/-!
# Paths through a selection

A step of a selection leads from a member to a member in its row. A path is any number of steps,
also none, so every point has a path to itself. Rows may name points outside the selection and
numbers that are no points at all; no step leads there.

## Main definitions

* `Selection.Step graph u v`: a step from `u` to `v`
* `Selection.Reaches graph u v`: a path from `u` to `v`
* `Selection.Strays graph v w`: `w` is the first number in the row of the member `v` that is no
  point
* `Selection.Frays graph v`: the row of the member `v` names a number that is no point

## Main results

* `Selection.Reaches.of_closed`: no path leaves a set that no step leaves
* `Selection.frays_iff`: a row that frays strays at its first number that is no point
-/

namespace Navigability.Selection

variable {γ : Type} [Adjacency γ]

/-- A step from a member to a member in its row. -/
structure Step (selection : Selection) (graph : γ) (u v : Nat) : Prop where
  source : selection.isMember u
  neighbor : v ∈ Adjacency.row graph u
  target : selection.isMember v

/-- Whether a path of steps leads from one point to another. -/
abbrev Reaches (selection : Selection) (graph : γ) : Nat → Nat → Prop :=
  Relation.ReflTransGen (selection.Step graph)

/-- The first number in the row of a member that is none of the points. -/
structure Strays (selection : Selection) (graph : γ) (v w : Nat) : Prop where
  member : selection.isMember v
  outside : selection.pointCount ≤ w
  first : ∃ front back, Adjacency.row graph v = front ++ w :: back ∧
    ∀ x ∈ front, x < selection.pointCount

/-- The row of a member names a number that is none of the points. -/
structure Frays (selection : Selection) (graph : γ) (v : Nat) : Prop where
  member : selection.isMember v
  outside : ∃ w ∈ Adjacency.row graph v, selection.pointCount ≤ w

/-- A set that no step leaves is left by no path. -/
theorem Reaches.of_closed {selection : Selection} {graph : γ} {inside : Nat → Prop}
    (closed : ∀ u, inside u → ∀ v, selection.Step graph u v → inside v) {u v : Nat}
    (path : selection.Reaches graph u v) (start : inside u) : inside v := by
  induction path with
  | refl => exact start
  | tail _ step ih => exact closed _ ih _ step

variable {selection : Selection} {graph : γ} {u v : Nat}

/-- Paths lead from members to members. -/
theorem Reaches.isMember (path : selection.Reaches graph u v) (member : selection.isMember u) :
    selection.isMember v := by
  induction path with
  | refl => exact member
  | tail _ step _ => exact step.target

theorem Strays.frays {w : Nat} (strays : selection.Strays graph v w) :
    selection.Frays graph v := by
  obtain ⟨front, back, shape, -⟩ := strays.first
  exact ⟨strays.member, w, by simp [shape], strays.outside⟩

/-- A row stays among the points, or it can be cut at its first number that is none of them. -/
theorem row_inside_or_cut (selection : Selection) (row : List Nat) :
    (∀ w ∈ row, w < selection.pointCount) ∨
      ∃ front w back, row = front ++ w :: back ∧ (∀ x ∈ front, x < selection.pointCount) ∧
        selection.pointCount ≤ w := by
  induction row with
  | nil => exact .inl (by simp)
  | cons x row ih =>
    rcases Nat.lt_or_ge x selection.pointCount with inside | outside
    · rcases ih with all | ⟨front, w, back, rfl, before, outside⟩
      · exact .inl (List.forall_mem_cons.2 ⟨inside, all⟩)
      · exact .inr ⟨x :: front, w, back, rfl, List.forall_mem_cons.2 ⟨inside, before⟩, outside⟩
    · exact .inr ⟨[], x, row, rfl, by simp, outside⟩

theorem frays_iff : selection.Frays graph v ↔ ∃ w, selection.Strays graph v w := by
  constructor
  · rintro ⟨member, w, mem, outside⟩
    rcases selection.row_inside_or_cut (Adjacency.row graph v) with
      inside | ⟨front, x, back, shape, before, outside⟩
    · exact absurd (inside w mem) (Nat.not_lt.2 outside)
    · exact ⟨x, member, outside, front, back, shape, before⟩
  · rintro ⟨w, strays⟩
    exact strays.frays

/-- If the rows of the members name points only, no row frays. -/
theorem not_frays_of_inside (inside : ∀ p, selection.isMember p → ∀ w ∈ Adjacency.row graph p,
    w < selection.pointCount) (p : Nat) : ¬ selection.Frays graph p := by
  rintro ⟨member, w, mem, outside⟩
  exact Nat.not_lt.2 outside (inside p member w mem)

/-- The row of a member that does not fray stays among the points. -/
theorem lt_of_not_frays {w : Nat} (member : selection.isMember v)
    (intact : ¬ selection.Frays graph v) (mem : w ∈ Adjacency.row graph v) :
    w < selection.pointCount :=
  Nat.lt_of_not_le fun outside => intact ⟨member, w, mem, outside⟩

end Navigability.Selection
