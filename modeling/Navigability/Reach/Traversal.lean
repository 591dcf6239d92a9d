import Navigability.Event
import Navigability.Reach.Expand
import Navigability.Run

/-!
# Breadth-first traversals

A traversal starts at a member and takes the points of its queue one after another, expanding each
of them. The points come in the order of their distance from the start, and the level of each is
that distance. When the queue is used up it holds every member that can be reached from the start
by steps from members to members.

## Main definitions

* `sweep`: expand the points of the queue from a position on
* `traverse`: the traversal from a point
* `Selection.reach`: the members that can be reached from a point

## Main results

* `sweep_of_lt`: sweeping expands one point, and sweeps the rest of the queue
-/

namespace Navigability.Reach

variable {γ : Type} [Adjacency γ]

/-- Expand the points of the queue from a position on. The outcome is the greatest level of an
expanded point, or the given one if that is greater. -/
def sweep (selection : Selection) (graph : γ) (position : Nat) (deepest : UInt32) :
    Attempt Buffers UInt32 := fun buffers =>
  if _ : position < buffers.queue.size then
    let next := buffers.queue[position]
    let point := next.point.toNat
    match _ : expand selection point next.level (Adjacency.row graph point) buffers with
    | .ok () buffers => sweep selection graph (position + 1) (max deepest next.level) buffers
    | .error failure buffers => .error failure buffers
  else .ok deepest buffers
termination_by buffers => buffers.unvisited + (buffers.queue.size - position)
decreasing_by
  have := expand_spec ‹_›
  omega

theorem sweep_of_lt {selection : Selection} {graph : γ} {position : Nat} {deepest : UInt32}
    {buffers : Buffers} (h : position < buffers.queue.size) :
    sweep selection graph position deepest buffers =
      (expand selection buffers.queue[position].point.toNat buffers.queue[position].level
        (Adjacency.row graph buffers.queue[position].point.toNat) >>= fun _ =>
          sweep selection graph (position + 1) (max deepest buffers.queue[position].level))
        buffers := by
  rw [sweep]
  simp only [h, dite_true, bind, EStateM.bind]
  split <;> next ran => simp [ran]

theorem sweep_of_le {selection : Selection} {graph : γ} {position : Nat} {deepest : UInt32}
    {buffers : Buffers} (h : buffers.queue.size ≤ position) :
    sweep selection graph position deepest buffers = .ok deepest buffers := by
  rw [sweep]
  simp [Nat.not_lt.2 h]

/-- The traversal from a point. It leaves the visited points in the queue, and returns the greatest
distance of one of them from the start. -/
def traverse (selection : Selection) (graph : γ) (start : Nat) : Attempt Buffers Nat := do
  restart
  let _ ← visit start
  enqueue start 0
  return (← sweep selection graph 0 0).toNat

/-- The points a traversal has visited, in order. -/
def Buffers.visited (buffers : Buffers) : List Nat :=
  buffers.queue.toList.map fun visit => visit.point.toNat

/-- The members that can be reached from a point, in ascending order. Storage that is already sized
for the selection is used as it is. -/
def reached (selection : Selection) (graph : γ) (start : Nat) : Attempt Buffers (List Nat) := do
  let n := selection.pointCount
  if n ≤ start then throw (.entryOutOfRange start n)
  if selection.isMember start then
    unless (← get).capacity = n do Buffers.reset n
    let _ ← traverse selection graph start
    return (← get).visited.mergeSort
  else return []

end Navigability.Reach

namespace Navigability

open Reach

/-- The members of a selection that can be reached from a point, in ascending order. From a point
that is no member nothing can be reached. -/
def Selection.reach {γ : Type} [Adjacency γ] (selection : Selection) (graph : γ) (start : Nat)
    (buffers : Buffers) : Run Buffers Event (List Nat) :=
  match reached selection graph start buffers with
  | .ok points buffers => { result := .ok points, state := buffers, reports := [] }
  | .error failure buffers => { result := .error failure, state := buffers, reports := [] }

end Navigability
