import Navigability.Graph.Basic

/-!
# Edge lists

A graph can be given as a list of edges in the order in which they were added. Read as directed, an
edge leads from its first end to its second. Read as undirected, it leads both ways: the row of a
point lists first the other ends of the edges that end at it, and then those of the edges that
start at it. A loop counts once.

## Main definitions

* `EdgeList`: points and edges
* `EdgeList.Directed`, `EdgeList.Undirected`: the two readings, as graphs
-/

namespace Navigability

/-- A number of points and the edges between them, in the order in which they were added. -/
structure EdgeList where
  pointCount : Nat
  edges : List (Nat × Nat)

namespace EdgeList

/-- The second ends of the edges that start at a point. -/
def outgoing (list : EdgeList) (point : Nat) : List Nat :=
  list.edges.filterMap fun edge => if edge.1 = point then some edge.2 else none

/-- The first ends of the edges that end at a point and start elsewhere. -/
def incoming (list : EdgeList) (point : Nat) : List Nat :=
  list.edges.filterMap fun edge =>
    if edge.2 = point ∧ edge.1 ≠ point then some edge.1 else none

/-- An edge list read as a directed graph. -/
structure Directed where
  list : EdgeList

/-- An edge list read as an undirected graph. -/
structure Undirected where
  list : EdgeList

instance : Adjacency Directed where
  pointCount graph := graph.list.pointCount
  row graph point := graph.list.outgoing point

instance : Adjacency Undirected where
  pointCount graph := graph.list.pointCount
  row graph point := graph.list.incoming point ++ graph.list.outgoing point

end EdgeList

end Navigability
