import Navigability.Attempt
import Navigability.Graph.Basic
import Navigability.Storage

/-!
# Fixed-width rows

A slotted graph gives every point the same number of slots and keeps how many of them are in use.
Rows can be replaced one at a time; a row longer than the width loses its end. Replacing the row
of a number that is no point is a fault and changes nothing.

## Main definitions

* `SlottedGraph.new n width`: `n` points with empty rows of at most `width` neighbors
* `SlottedGraph.replaceRow`: replace the row of a point
* `SlottedGraph.setRow`, `SlottedGraph.setRows`: the graph with a row replaced, or rows in order

## Main results

* `SlottedGraph.pointCount_new`, `SlottedGraph.row_new`: a new graph has empty rows
-/

namespace Navigability

/-- `width` slots for each point, and how many of them each point uses. -/
structure SlottedGraph where
  width : Nat
  slots : Array Nat
  used : Array Nat

namespace SlottedGraph

/-- The graph of `n` points with empty rows. -/
def new (n width : Nat) : SlottedGraph where
  width := width
  slots := Array.replicate (n * width) 0
  used := Array.replicate n 0

/-- Write neighbors side by side into the slots of a point. All of them have to fit. -/
def writeSlots (point : Nat) (neighbors : List Nat) : Attempt SlottedGraph Unit :=
  fun ⟨width, slots, used⟩ =>
    if point * width + neighbors.length ≤ slots.size then
      .ok () ⟨width, overwrite slots (point * width) neighbors, used⟩
    else
      .error (.outOfStorage (point * width + neighbors.length) slots.size) ⟨width, slots, used⟩

/-- Set how many slots a point uses. -/
def writeUsed (point length : Nat) : Attempt SlottedGraph Unit :=
  fun ⟨width, slots, used⟩ =>
    if h : point < used.size then .ok () ⟨width, slots, used.set point length⟩
    else .error (.outOfStorage point used.size) ⟨width, slots, used⟩

/-- Replace the row of a point by the first `width` neighbors of a list. They are written before it
is set how many slots the point uses. -/
def replaceRow (point : Nat) (neighbors : List Nat) : Attempt SlottedGraph Unit := do
  let kept := neighbors.take (← get).width
  writeSlots point kept
  writeUsed point kept.length

/-- The graph in which the row of a point is replaced. -/
def setRow (graph : SlottedGraph) (point : Nat) (neighbors : List Nat) :
    Except Failure SlottedGraph :=
  match replaceRow point neighbors graph with
  | .ok () replaced => .ok replaced
  | .error failure _ => .error failure

/-- Replace the rows of consecutive points. -/
def setRows (graph : SlottedGraph) (point : Nat) : List (List Nat) → Except Failure SlottedGraph
  | [] => .ok graph
  | row :: rows => do setRows (← graph.setRow point row) (point + 1) rows

instance : Adjacency SlottedGraph where
  pointCount graph := graph.used.size
  row graph point :=
    match graph.used[point]? with
    | some length =>
      (graph.slots.extract (point * graph.width) (point * graph.width + length)).toList
    | none => []

@[simp] theorem pointCount_new (n width : Nat) : Adjacency.pointCount (new n width) = n := by
  simp [Adjacency.pointCount, new]

@[simp] theorem row_new (n width point : Nat) : Adjacency.row (new n width) point = [] := by
  simp only [Adjacency.row, new]
  by_cases h : point < n
  · rw [Array.getElem?_replicate, if_pos h]
    exact congrArg Array.toList (Array.extract_empty_of_stop_le_start (Nat.le_refl _))
  · rw [Array.getElem?_replicate, if_neg h]

end SlottedGraph

end Navigability
