import Mathlib.Algebra.BigOperators.Group.Finset.Basic
import Mathlib.Combinatorics.SimpleGraph.Basic
import Navigability.Graph.EdgeList
import Navigability.Proofs.Graph.Compressed

/-!
# Undirected edge lists

Read as undirected, an edge stands in the rows of both its ends, and a loop stands once in the row
of its one end. So the row of a point names another point as often as it is named by it, once for
each of the parallel edges between them, whichever way round these are written in the list.

## Main definitions

* `EdgeList.undirected`: the compressed graph of an edge list read as undirected
* `EdgeList.links`, `EdgeList.loops`: the edges between two points, the edges at one
* `EdgeList.simple`: the simple graph of an edge list
* `EdgeList.Inside`: whether all edges lead between points

## Main results

* `EdgeList.count_row`: how often one point stands in the row of another
* `EdgeList.edgeCount_undirected`: links count twice and loops once
* `EdgeList.mem_row_undirected_iff`: the neighbors of a point
-/

namespace Navigability.EdgeList

/-- An edge list read as undirected, with its rows compressed. -/
def undirected (list : EdgeList) : CompressedGraph := .ofGraph (Undirected.mk list)

/-- The edges between two different points. -/
def links (list : EdgeList) : List (Nat × Nat) := list.edges.filter fun edge => edge.1 ≠ edge.2

/-- The edges from a point to itself. -/
def loops (list : EdgeList) : List (Nat × Nat) := list.edges.filter fun edge => edge.1 = edge.2

/-- The simple graph of an edge list: two different points are adjacent if there is an edge between
them, in one direction or the other. -/
def simple (list : EdgeList) : SimpleGraph Nat := .fromRel fun a b => (a, b) ∈ list.edges

/-- Whether all edges lead between points. -/
def Inside (list : EdgeList) : Prop :=
  ∀ edge ∈ list.edges, edge.1 < list.pointCount ∧ edge.2 < list.pointCount

instance (list : EdgeList) : Decidable list.Inside :=
  inferInstanceAs (Decidable (∀ edge ∈ list.edges, _))

variable {list : EdgeList}

/-! ## The rows of one point -/

theorem count_outgoing (list : EdgeList) (a b : Nat) :
    (list.outgoing a).count b = list.edges.count (a, b) := by
  rw [outgoing, List.count_filterMap, List.count_eq_countP]
  apply List.countP_congr
  rintro ⟨x, y⟩ -
  grind

theorem count_incoming (list : EdgeList) (a b : Nat) :
    (list.incoming a).count b = if a = b then 0 else list.edges.count (b, a) := by
  rw [incoming, List.count_filterMap]
  split
  · rw [List.countP_eq_zero]
    rintro ⟨x, y⟩ -
    grind
  · rw [List.count_eq_countP]
    apply List.countP_congr
    rintro ⟨x, y⟩ -
    grind

/-- **How often one point stands in the row of another**: once for each edge between them, in one
direction or the other. -/
theorem count_row (list : EdgeList) (a b : Nat) :
    (Adjacency.row (Undirected.mk list) a).count b =
      (if a = b then 0 else list.edges.count (b, a)) + list.edges.count (a, b) := by
  show (list.incoming a ++ list.outgoing a).count b = _
  rw [List.count_append, count_incoming, count_outgoing]

/-- Four points in a line, with parallel edges between the first two and a loop at the second. -/
def doubled : EdgeList := ⟨4, [(0, 1), (1, 0), (1, 1), (2, 3), (1, 2)]⟩

example : Adjacency.row (Undirected.mk doubled) 1 = [0, 0, 1, 2] := rfl

theorem mem_row_iff {a b : Nat} :
    b ∈ Adjacency.row (Undirected.mk list) a ↔ (a, b) ∈ list.edges ∨ (b, a) ∈ list.edges := by
  rw [← List.count_pos_iff, count_row, ← List.count_pos_iff, ← List.count_pos_iff]
  split
  · subst_vars
    omega
  · omega

/-! ## All rows -/

/-- If the numbers in a list are below a bound, then they are counted once each by counting every
number below the bound. -/
theorem sum_count_range {l : List Nat} {n : Nat} (below : ∀ a ∈ l, a < n) :
    ((List.range n).map fun p => l.count p).sum = l.length := by
  have counted := Multiset.sum_count_eq_card (s := Finset.range n) (m := (l : Multiset Nat))
    fun a mem => Finset.mem_range.2 (below a mem)
  rw [Finset.sum, Finset.range_val, ← Multiset.coe_range, Multiset.map_coe, Multiset.sum_coe]
    at counted
  simpa only [Multiset.coe_count, Multiset.coe_card] using counted

/-- A point's row has an entry for each edge that starts at it. -/
theorem length_outgoing (list : EdgeList) (p : Nat) :
    (list.outgoing p).length = (list.edges.map Prod.fst).count p := by
  rw [outgoing, List.length_filterMap_eq_countP, List.count, List.countP_map]
  apply List.countP_congr
  rintro ⟨x, y⟩ -
  grind

/-- And one for each edge from another point that ends at it. -/
theorem length_incoming (list : EdgeList) (p : Nat) :
    (list.incoming p).length = (list.links.map Prod.snd).count p := by
  rw [incoming, List.length_filterMap_eq_countP, List.count, List.countP_map, links,
    List.countP_filter]
  apply List.countP_congr
  rintro ⟨x, y⟩ -
  grind

theorem length_links_add_loops (list : EdgeList) :
    list.links.length + list.loops.length = list.edges.length := by
  have split := list.edges.length_eq_length_filter_add fun edge => edge.1 = edge.2
  simp only [← decide_not] at split
  rw [links, loops, split, Nat.add_comm]

theorem row_undirected (inside : list.Inside) (p : Nat) :
    Adjacency.row list.undirected p = Adjacency.row (Undirected.mk list) p := by
  rcases Nat.lt_or_ge p list.pointCount with point | beyond
  · exact CompressedGraph.row_ofGraph _ point
  · rw [undirected, CompressedGraph.row_ofGraph_of_le _ beyond, eq_comm,
      List.eq_nil_iff_forall_not_mem]
    intro w mem
    rcases mem_row_iff.1 mem with edge | edge
    · exact Nat.not_lt.2 beyond (inside _ edge).1
    · exact Nat.not_lt.2 beyond (inside _ edge).2

/-- **The rows are symmetric**: one point stands in the row of another as often as the other way
round. -/
theorem count_row_undirected_comm (inside : list.Inside) (a b : Nat) :
    (Adjacency.row list.undirected a).count b = (Adjacency.row list.undirected b).count a := by
  rw [row_undirected inside, row_undirected inside, count_row, count_row]
  split
  · subst_vars
    simp
  · rw [if_neg (Ne.symm ‹_›), Nat.add_comm]

/-- **Links count twice and loops once.** -/
theorem edgeCount_undirected (inside : list.Inside) :
    list.undirected.edgeCount = 2 * list.links.length + list.loops.length := by
  have degree (p : Nat) : Adjacency.outDegree (Undirected.mk list) p =
      (list.links.map Prod.snd).count p + (list.edges.map Prod.fst).count p := by
    show (list.incoming p ++ list.outgoing p).length = _
    rw [List.length_append, length_incoming, length_outgoing]
  have first : ∀ a ∈ list.edges.map Prod.fst, a < list.pointCount :=
    List.forall_mem_map.2 fun edge mem => (inside edge mem).1
  have second : ∀ a ∈ list.links.map Prod.snd, a < list.pointCount :=
    List.forall_mem_map.2 fun edge mem => (inside edge (List.mem_of_mem_filter mem)).2
  calc list.undirected.edgeCount
      = ((List.range list.pointCount).map fun p =>
          (list.links.map Prod.snd).count p + (list.edges.map Prod.fst).count p).sum := by
        rw [undirected, CompressedGraph.edgeCount_ofGraph, funext degree]
        rfl
    _ = list.links.length + list.edges.length := by
        rw [List.sum_map_add, sum_count_range first, sum_count_range second, List.length_map,
          List.length_map]
    _ = 2 * list.links.length + list.loops.length := by
        rw [← length_links_add_loops]
        omega

theorem mem_row_undirected_iff (inside : list.Inside) {a b : Nat} :
    b ∈ Adjacency.row list.undirected a ↔ (a, b) ∈ list.edges ∨ (b, a) ∈ list.edges := by
  rw [row_undirected inside, mem_row_iff]

/-- The rows name points only. -/
theorem lt_of_mem_undirected (inside : list.Inside) {a b : Nat}
    (mem : b ∈ Adjacency.row list.undirected a) : b < list.pointCount := by
  rcases (mem_row_undirected_iff inside).1 mem with edge | edge
  · exact (inside _ edge).2
  · exact (inside _ edge).1

end Navigability.EdgeList
