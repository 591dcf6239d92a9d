import Mathlib.Data.Nat.Basic
import Mathlib.Order.Basic
import Mathlib.Tactic.Tauto
import Navigability.Component.Turn

/-!
# Snapshots of a component search

A snapshot is what the storage of a component search says, as numbers without a bound and as lists.
The operations of the search act on snapshots, and the reasoning about the search takes place
there: what a search does to its 32-bit storage is what it does to the snapshot of it.

## Main definitions

* `Snapshot`, `Search.snapshot`: the snapshot of a search
* `Snapshot.enter`, `Snapshot.readTo`, `Snapshot.close`: what a turn does to a snapshot
* `unstack root trail`: the points of a trail down to a root, and those below it

## Main results

* `Snapshot.le_lowest_iff`: the lower bounds of what a point reaches along its row
* `Snapshot.lowest_congr`: the entries of the row that count
-/

namespace Navigability.Component

open Function (update)

/-- What the storage of a search says about every point, its lists, and what it has put out. -/
structure Snapshot where
  index : Nat → Nat
  low : Nat → Nat
  parent : Nat → Nat
  position : Nat → Nat
  onTrail : Nat → Bool
  listed : Nat → Bool
  path : List Nat
  trail : List Nat
  lastIndex : Nat
  components : List (List Nat)
  reports : List Event

/-- The state of a point; a number without storage has the state of an unvisited point. -/
def Search.stateOf (s : Search) (point : Nat) : PointState := s.points.getD point {}

/-- The snapshot of a search. -/
def Search.snapshot (s : Search) : Snapshot where
  index point := (s.stateOf point).index.toNat
  low point := (s.stateOf point).low.toNat
  parent point := (s.stateOf point).parent.toNat
  position point := (s.stateOf point).position.toNat
  onTrail point := (s.stateOf point).onTrail
  listed point := (s.stateOf point).listed
  path := s.path.map UInt32.toNat
  trail := s.trail.map UInt32.toNat
  lastIndex := s.lastIndex.toNat
  components := s.components.toList
  reports := s.reports.toList

/-- The points of a trail down to `root`, and the points below it. -/
def unstack (root : Nat) : List Nat → List Nat × List Nat
  | [] => ([], [])
  | top :: trail =>
    if top = root then ([top], trail)
    else ((top :: (unstack root trail).1), (unstack root trail).2)

theorem unstack_append {root : Nat} {above : List Nat} (below : List Nat)
    (distinct : (above ++ [root]).Nodup) :
    unstack root (above ++ root :: below) = (above ++ [root], below) := by
  induction above with
  | nil => simp [unstack]
  | cons top above ih =>
    rw [List.cons_append, List.nodup_cons] at distinct
    have other : top ≠ root := by
      rintro rfl
      exact distinct.1 (by simp)
    rw [List.cons_append, unstack, if_neg other, ih distinct.2]
    rfl

namespace Snapshot

variable (σ : Snapshot)

/-- Enter a point: number it, and put it on the path and on the trail. -/
def enter (point parent : Nat) : Snapshot :=
  { σ with
    index := update σ.index point (σ.lastIndex + 1)
    low := update σ.low point (σ.lastIndex + 1)
    parent := update σ.parent point parent
    position := update σ.position point 0
    onTrail := update σ.onTrail point true
    path := point :: σ.path
    trail := point :: σ.trail
    lastIndex := σ.lastIndex + 1 }

/-- Remember how far the row of a point was read. The storage keeps 32 bits of the position. -/
def readTo (point stop : Nat) : Snapshot :=
  { σ with position := update σ.position point (stop % UInt32.size) }

/-- The least of a number and the visit numbers of the members in a row that are on the trail. -/
def lowest (selection : Selection) : List Nat → Nat → Nat
  | [], low => low
  | neighbor :: row, low =>
    if selection.isMember neighbor ∧ σ.onTrail neighbor then
      lowest selection row (min low (σ.index neighbor))
    else lowest selection row low

/-- Lower what a point is known to reach. -/
def lower (point low : Nat) : Snapshot :=
  { σ with low := update σ.low point (min (σ.low point) low) }

/-- Put down what a point reaches, take it off the path, and tell its parent. -/
def retire (point low : Nat) : Snapshot :=
  let τ : Snapshot := { σ with low := update σ.low point low, path := σ.path.tail }
  if σ.parent point = point then τ else τ.lower (σ.parent point) low

/-- The report on a component. -/
def closingEvent (root : Nat) (component : List Nat) : Event :=
  if 1 < component.length then .componentClosed root component.length else .singletonClosed root

/-- Take points off the trail, of which the given part remains, and mark them as put out. -/
def unload (component below : List Nat) : Snapshot :=
  { σ with
    onTrail := fun point => σ.onTrail point && point ∉ component
    listed := fun point => σ.listed point || point ∈ component
    trail := below }

/-- Take the points down to a root off the trail and put them out as a component. -/
def complete (root : Nat) : Snapshot :=
  let component := (unstack root σ.trail).1
  { σ.unload component (unstack root σ.trail).2 with
    components := σ.components ++ [component]
    reports := σ.reports ++ [closingEvent root component] }

/-- Close the point at the top of the path, all of whose row is read. -/
def close (selection : Selection) (point : Nat) (row : List Nat) : Snapshot :=
  let low := σ.lowest selection row (σ.low point)
  if low = σ.index point then (σ.retire point low).complete point else σ.retire point low

/-! ## Retiring a point

Beside the path, retiring a point changes only what points reach. -/

section Retire

variable (point low : Nat)

@[simp] theorem retire_index : (σ.retire point low).index = σ.index := by
  simp only [retire]; split <;> rfl

@[simp] theorem retire_parent : (σ.retire point low).parent = σ.parent := by
  simp only [retire]; split <;> rfl

@[simp] theorem retire_position : (σ.retire point low).position = σ.position := by
  simp only [retire]; split <;> rfl

@[simp] theorem retire_onTrail : (σ.retire point low).onTrail = σ.onTrail := by
  simp only [retire]; split <;> rfl

@[simp] theorem retire_listed : (σ.retire point low).listed = σ.listed := by
  simp only [retire]; split <;> rfl

@[simp] theorem retire_path : (σ.retire point low).path = σ.path.tail := by
  simp only [retire]; split <;> rfl

@[simp] theorem retire_trail : (σ.retire point low).trail = σ.trail := by
  simp only [retire]; split <;> rfl

@[simp] theorem retire_lastIndex : (σ.retire point low).lastIndex = σ.lastIndex := by
  simp only [retire]; split <;> rfl

@[simp] theorem retire_components : (σ.retire point low).components = σ.components := by
  simp only [retire]; split <;> rfl

@[simp] theorem retire_reports : (σ.retire point low).reports = σ.reports := by
  simp only [retire]; split <;> rfl

/-- A point other than the retired one reaches what it did, or, as the parent, also that. -/
theorem retire_low {other : Nat} (h : other ≠ point) : (σ.retire point low).low other =
    if other = σ.parent point then min (σ.low other) low else σ.low other := by
  have kept : update σ.low point low other = σ.low other := Function.update_of_ne h _ _
  rw [retire]
  split
  · next root => rw [root, if_neg h]; exact kept
  · simp only [lower, Function.update_apply]
    by_cases parent : other = σ.parent point
    · rw [if_pos parent, if_pos parent, ← parent, if_neg h]
    · rw [if_neg parent, if_neg parent, if_neg h]

/-- Putting out a component changes no number and nothing that points reach. -/
theorem close_index (selection : Selection) (row : List Nat) :
    (σ.close selection point row).index = σ.index := by
  rw [close]
  split
  · exact σ.retire_index point _
  · exact σ.retire_index point _

theorem close_low (selection : Selection) (row : List Nat) :
    (σ.close selection point row).low =
      (σ.retire point (σ.lowest selection row (σ.low point))).low := by
  rw [close]
  split <;> rfl

theorem close_path (selection : Selection) (row : List Nat) :
    (σ.close selection point row).path = σ.path.tail := by
  rw [close]
  split
  · exact σ.retire_path point _
  · exact σ.retire_path point _

theorem close_position (selection : Selection) (row : List Nat) :
    (σ.close selection point row).position = σ.position := by
  rw [close]
  split
  · exact σ.retire_position point _
  · exact σ.retire_position point _

theorem close_parent (selection : Selection) (row : List Nat) :
    (σ.close selection point row).parent = σ.parent := by
  rw [close]
  split
  · exact σ.retire_parent point _
  · exact σ.retire_parent point _

theorem close_lastIndex (selection : Selection) (row : List Nat) :
    (σ.close selection point row).lastIndex = σ.lastIndex := by
  rw [close]
  split
  · exact σ.retire_lastIndex point _
  · exact σ.retire_lastIndex point _

end Retire

/-! ## What a point reaches along its row -/

variable {σ} {selection : Selection} {row : List Nat} {low : Nat}

theorem le_lowest_iff {bound : Nat} :
    bound ≤ σ.lowest selection row low ↔
      bound ≤ low ∧ ∀ w ∈ row, selection.isMember w → σ.onTrail w → bound ≤ σ.index w := by
  induction row generalizing low with
  | nil => simp [lowest]
  | cons neighbor row ih =>
    rw [lowest]
    split
    · next counts =>
      rw [ih, Nat.le_min, List.forall_mem_cons]
      simp only [counts, true_implies, and_assoc]
    · next skipped =>
      rw [ih, List.forall_mem_cons]
      simp only [not_and] at skipped
      exact and_congr_right fun _ =>
        ⟨fun rest => ⟨fun member trail => absurd trail (skipped member), rest⟩, And.right⟩

theorem lowest_le : σ.lowest selection row low ≤ low :=
  (le_lowest_iff.1 (Nat.le_refl _)).1

theorem lowest_le_index {w : Nat} (h : w ∈ row) (member : selection.isMember w)
    (trail : σ.onTrail w) : σ.lowest selection row low ≤ σ.index w :=
  (le_lowest_iff.1 (Nat.le_refl _)).2 w h member trail

/-- The least number is the given one or that of a member in the row. -/
theorem lowest_eq_or (low : Nat) : σ.lowest selection row low = low ∨
    ∃ w ∈ row, selection.isMember w ∧ σ.onTrail w ∧ σ.lowest selection row low = σ.index w := by
  induction row generalizing low with
  | nil => exact .inl rfl
  | cons neighbor row ih =>
    rw [lowest]
    split
    · next counts =>
      rcases ih (min low (σ.index neighbor)) with same | ⟨w, mem, found⟩
      · rcases Nat.le_total low (σ.index neighbor) with le | le
        · exact .inl (by rw [same, Nat.min_eq_left le])
        · exact .inr ⟨neighbor, List.mem_cons_self, counts.1, counts.2,
            by rw [same, Nat.min_eq_right le]⟩
      · exact .inr ⟨w, List.mem_cons_of_mem _ mem, found⟩
    · rcases ih low with same | ⟨w, mem, found⟩
      · exact .inl same
      · exact .inr ⟨w, List.mem_cons_of_mem _ mem, found⟩

theorem lowest_append (front back : List Nat) (low : Nat) :
    σ.lowest selection (front ++ back) low =
      σ.lowest selection back (σ.lowest selection front low) := by
  induction front generalizing low with
  | nil => rfl
  | cons neighbor front ih =>
    rw [List.cons_append, lowest, lowest]
    split
    · exact ih _
    · exact ih _

/-- A number that no entry of a row is below stays the least. -/
theorem lowest_eq_self
    (above : ∀ w ∈ row, selection.isMember w → σ.onTrail w → low ≤ σ.index w) :
    σ.lowest selection row low = low :=
  Nat.le_antisymm lowest_le (le_lowest_iff.2 ⟨Nat.le_refl _, above⟩)

theorem lowest_min (bound : Nat) :
    σ.lowest selection row (min low bound) = min (σ.lowest selection row low) bound := by
  apply eq_of_forall_le_iff
  intro k
  rw [le_lowest_iff, Nat.le_min, Nat.le_min, le_lowest_iff]
  tauto

/-- Only the members in a row count, and of them their numbers and whether they are on the trail. -/
theorem lowest_congr {τ : Snapshot}
    (agree : ∀ w ∈ row, selection.isMember w →
      τ.onTrail w = σ.onTrail w ∧ τ.index w = σ.index w) :
    τ.lowest selection row low = σ.lowest selection row low := by
  apply eq_of_forall_le_iff
  intro bound
  rw [le_lowest_iff, le_lowest_iff]
  refine and_congr_right fun _ => forall₂_congr fun w mem => imp_congr_right fun member => ?_
  rw [(agree w mem member).1, (agree w mem member).2]

end Snapshot

end Navigability.Component
