/-!
# Neighbor graphs

The points of a graph are the numbers below its point count. Each point has a row: the list of its
neighbors, in the order in which the graph holds them. Rows may repeat neighbors, may name the
point itself, and may name numbers that are no points; what reads a row decides what that means.
A number that is no point has the empty row.

## Main definitions

* `Adjacency γ`: what every graph layout answers
* `Adjacency.outDegree`: the length of a row
* `RowGraph`: a graph held as its rows

## Main results

* `RowGraph.row_ofRows`: the rows of a row graph are the given ones
-/

namespace Navigability

/-- The questions a graph answers: how many points it has, and the row of each point. -/
class Adjacency (γ : Type) where
  pointCount : γ → Nat
  row : γ → Nat → List Nat

/-- The length of a point's row. -/
def Adjacency.outDegree {γ : Type} [Adjacency γ] (graph : γ) (point : Nat) : Nat :=
  (row graph point).length

/-- All rows of a graph, in the order of the points. -/
def Adjacency.rows {γ : Type} [Adjacency γ] (graph : γ) : List (List Nat) :=
  (List.range (pointCount graph)).map (row graph)

/-- A graph held as an array of rows. -/
structure RowGraph where
  rows : Array (List Nat)

namespace RowGraph

/-- The graph with the given rows. -/
def ofRows (rows : List (List Nat)) : RowGraph := ⟨rows.toArray⟩

instance : Adjacency RowGraph where
  pointCount graph := graph.rows.size
  row graph point := graph.rows.getD point []

@[simp] theorem pointCount_ofRows (rows : List (List Nat)) :
    Adjacency.pointCount (ofRows rows) = rows.length := by
  simp [Adjacency.pointCount, ofRows]

@[simp] theorem row_ofRows (rows : List (List Nat)) (point : Nat) :
    Adjacency.row (ofRows rows) point = rows.getD point [] := by
  simp [Adjacency.row, ofRows, List.getD_eq_getElem?_getD]

end RowGraph

end Navigability
