import Navigability.Graph.Basic

/-!
# Compressed rows

A compressed graph holds the rows of all points behind one another in one array of targets. An
array of offsets says where each row starts; the row of point `p` lies between offsets `p` and
`p + 1`, so there is one offset more than there are points. The graph without any offset has no
points either. It answers like the graph of no rows and is a different value.

## Main definitions

* `CompressedGraph.ofRows`, `CompressedGraph.ofGraph`: compress rows, compress another layout
* `CompressedGraph.blank`: the graph without offsets

## Main results

* `CompressedGraph.ofGraph_eq`: compressing a graph is compressing the list of its rows
-/

namespace Navigability

/-- Rows behind one another, and where each of them starts and ends. -/
structure CompressedGraph where
  offsets : Array Nat
  targets : Array Nat
  deriving DecidableEq

namespace CompressedGraph

/-- The graph without offsets. -/
def blank : CompressedGraph := ⟨#[], #[]⟩

/-- The graph of no rows. -/
def noRows : CompressedGraph := ⟨#[0], #[]⟩

/-- Add the row of one more point. -/
def addRow (graph : CompressedGraph) (row : List Nat) : CompressedGraph :=
  let targets := graph.targets ++ row
  { offsets := graph.offsets.push targets.size, targets }

/-- The graph with the given rows. -/
def ofRows (rows : List (List Nat)) : CompressedGraph :=
  rows.foldl addRow noRows

/-- The graph with the rows of another graph. -/
def ofGraph {γ : Type} [Adjacency γ] (graph : γ) : CompressedGraph :=
  (List.range (Adjacency.pointCount graph)).foldl
    (fun compressed point => compressed.addRow (Adjacency.row graph point)) noRows

/-- How many neighbors all rows have together. -/
def edgeCount (graph : CompressedGraph) : Nat := graph.targets.size

instance : Adjacency CompressedGraph where
  pointCount graph := graph.offsets.size - 1
  row graph point :=
    match graph.offsets[point]?, graph.offsets[point + 1]? with
    | some start, some stop => (graph.targets.extract start stop).toList
    | _, _ => []

theorem ofGraph_eq {γ : Type} [Adjacency γ] (graph : γ) :
    ofGraph graph = ofRows (Adjacency.rows graph) := by
  simp [ofGraph, ofRows, Adjacency.rows, List.foldl_map]

end CompressedGraph

end Navigability
